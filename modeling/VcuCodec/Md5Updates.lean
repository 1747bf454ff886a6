import VcuCodec.Md5Digest
import Mathlib.Logic.Function.Basic

/-!
# MD5 by updates

From `exe_encoder/MD5.cpp`: the digest of a stream that comes in pieces.  A piece
first fills up the block that an earlier one left, its own full blocks are hashed
where they lie, and the rest of it is kept.  Words are read low-order byte first,
as on the machines the code casts its buffers on.
-/

namespace Md5Updates

open Md5Digest BlockStreams

def F (X Y Z : Word) : Word := Z ^^^ (X &&& (Y ^^^ Z))
def G (X Y Z : Word) : Word := Y ^^^ (Z &&& (X ^^^ Y))
def H (X Y Z : Word) : Word := X ^^^ Y ^^^ Z
def I (X Y Z : Word) : Word := Y ^^^ (X ||| ~~~Z)

def Rot (X : Word) (s : ℕ) : Word := (X <<< s) ||| (X >>> (32 - s))

/-- `MD5(d, X, Y, Z, Fn, i, C, s)`: the value that `d` gets. -/
def MD5 (d X Y Z : Word) (Fn : Word → Word → Word → Word) (p C : Word) (s : ℕ) : Word :=
  Rot (d + Fn X Y Z + p + C) s + X

/-- The lines of `UpdateBlock`, each with its registers, function, word, constant
and shift. -/
def lines : List Step :=
  [⟨.abcd, .F, 0, 0xD76AA478, 7⟩, ⟨.dabc, .F, 1, 0xE8C7B756, 12⟩,
   ⟨.cdab, .F, 2, 0x242070DB, 17⟩, ⟨.bcda, .F, 3, 0xC1BDCEEE, 22⟩,
   ⟨.abcd, .F, 4, 0xF57C0FAF, 7⟩, ⟨.dabc, .F, 5, 0x4787C62A, 12⟩,
   ⟨.cdab, .F, 6, 0xA8304613, 17⟩, ⟨.bcda, .F, 7, 0xFD469501, 22⟩,
   ⟨.abcd, .F, 8, 0x698098D8, 7⟩, ⟨.dabc, .F, 9, 0x8B44F7AF, 12⟩,
   ⟨.cdab, .F, 10, 0xFFFF5BB1, 17⟩, ⟨.bcda, .F, 11, 0x895CD7BE, 22⟩,
   ⟨.abcd, .F, 12, 0x6B901122, 7⟩, ⟨.dabc, .F, 13, 0xFD987193, 12⟩,
   ⟨.cdab, .F, 14, 0xA679438E, 17⟩, ⟨.bcda, .F, 15, 0x49B40821, 22⟩,
   ⟨.abcd, .G, 1, 0xF61E2562, 5⟩, ⟨.dabc, .G, 6, 0xC040B340, 9⟩,
   ⟨.cdab, .G, 11, 0x265E5A51, 14⟩, ⟨.bcda, .G, 0, 0xE9B6C7AA, 20⟩,
   ⟨.abcd, .G, 5, 0xD62F105D, 5⟩, ⟨.dabc, .G, 10, 0x02441453, 9⟩,
   ⟨.cdab, .G, 15, 0xD8A1E681, 14⟩, ⟨.bcda, .G, 4, 0xE7D3FBC8, 20⟩,
   ⟨.abcd, .G, 9, 0x21E1CDE6, 5⟩, ⟨.dabc, .G, 14, 0xC33707D6, 9⟩,
   ⟨.cdab, .G, 3, 0xF4D50D87, 14⟩, ⟨.bcda, .G, 8, 0x455A14ED, 20⟩,
   ⟨.abcd, .G, 13, 0xA9E3E905, 5⟩, ⟨.dabc, .G, 2, 0xFCEFA3F8, 9⟩,
   ⟨.cdab, .G, 7, 0x676F02D9, 14⟩, ⟨.bcda, .G, 12, 0x8D2A4C8A, 20⟩,
   ⟨.abcd, .H, 5, 0xFFFA3942, 4⟩, ⟨.dabc, .H, 8, 0x8771F681, 11⟩,
   ⟨.cdab, .H, 11, 0x6D9D6122, 16⟩, ⟨.bcda, .H, 14, 0xFDE5380C, 23⟩,
   ⟨.abcd, .H, 1, 0xA4BEEA44, 4⟩, ⟨.dabc, .H, 4, 0x4BDECFA9, 11⟩,
   ⟨.cdab, .H, 7, 0xF6BB4B60, 16⟩, ⟨.bcda, .H, 10, 0xBEBFBC70, 23⟩,
   ⟨.abcd, .H, 13, 0x289B7EC6, 4⟩, ⟨.dabc, .H, 0, 0xEAA127FA, 11⟩,
   ⟨.cdab, .H, 3, 0xD4EF3085, 16⟩, ⟨.bcda, .H, 6, 0x04881D05, 23⟩,
   ⟨.abcd, .H, 9, 0xD9D4D039, 4⟩, ⟨.dabc, .H, 12, 0xE6DB99E5, 11⟩,
   ⟨.cdab, .H, 15, 0x1FA27CF8, 16⟩, ⟨.bcda, .H, 2, 0xC4AC5665, 23⟩,
   ⟨.abcd, .I, 0, 0xF4292244, 6⟩, ⟨.dabc, .I, 7, 0x432AFF97, 10⟩,
   ⟨.cdab, .I, 14, 0xAB9423A7, 15⟩, ⟨.bcda, .I, 5, 0xFC93A039, 21⟩,
   ⟨.abcd, .I, 12, 0x655B59C3, 6⟩, ⟨.dabc, .I, 3, 0x8F0CCC92, 10⟩,
   ⟨.cdab, .I, 10, 0xFFEFF47D, 15⟩, ⟨.bcda, .I, 1, 0x85845DD1, 21⟩,
   ⟨.abcd, .I, 8, 0x6FA87E4F, 6⟩, ⟨.dabc, .I, 15, 0xFE2CE6E0, 10⟩,
   ⟨.cdab, .I, 6, 0xA3014314, 15⟩, ⟨.bcda, .I, 13, 0x4E0811A1, 21⟩,
   ⟨.abcd, .I, 4, 0xF7537E82, 6⟩, ⟨.dabc, .I, 11, 0xBD3AF235, 10⟩,
   ⟨.cdab, .I, 2, 0x2AD7D2BB, 15⟩, ⟨.bcda, .I, 9, 0xEB86D391, 21⟩]

/-- The function a line names. -/
def fnOf : Mix → Word → Word → Word → Word
  | .F => F
  | .G => G
  | .H => H
  | .I => I

def line (pBlock : ℕ → Word) (r : Regs) (t : Step) : Regs :=
  let Fn := fnOf t.mix
  match t.names with
  | .abcd => { r with a := MD5 r.a r.b r.c r.d Fn (pBlock t.k) t.T t.s }
  | .dabc => { r with d := MD5 r.d r.a r.b r.c Fn (pBlock t.k) t.T t.s }
  | .cdab => { r with c := MD5 r.c r.d r.a r.b Fn (pBlock t.k) t.T t.s }
  | .bcda => { r with b := MD5 r.b r.c r.d r.a Fn (pBlock t.k) t.T t.s }

/-- The members of the class: `m_pBound` is written at `m_uBound` and what lies
behind is left over from earlier blocks. -/
structure CMD5 where
  pHash32 : Regs
  uNumBytes : ℕ
  pBound : ℕ → UInt8
  uBound : ℕ

/-- The constructor; it does not set `m_pBound`. -/
def CMD5.init (pBound : ℕ → UInt8) : CMD5 where
  pHash32 := ⟨0x67452301, 0xEFCDAB89, 0x98BADCFE, 0x10325476⟩
  uNumBytes := 0
  pBound := pBound
  uBound := 0

namespace CMD5

def UpdateBlock (m : CMD5) (pBlock : List UInt8) : CMD5 :=
  let r := lines.foldl (line (wordOf pBlock)) m.pHash32
  { m with pHash32 := ⟨m.pHash32.a + r.a, m.pHash32.b + r.b, m.pHash32.c + r.c, m.pHash32.d + r.d⟩ }

/-- `m_pBound[m_uBound++] = x`. -/
def push (m : CMD5) (x : UInt8) : CMD5 :=
  { m with pBound := Function.update m.pBound m.uBound x, uBound := m.uBound + 1 }

/-- The first `n` bytes of `m_pBound`. -/
def bytes (m : CMD5) (n : ℕ) : List UInt8 := (List.range n).map m.pBound

/-- The block in `m_pBound` is hashed and the buffer is empty. -/
def flush (m : CMD5) : CMD5 := { m.UpdateBlock (m.bytes 64) with uBound := 0 }

/-- The loop that fills up the block of an earlier update. -/
def fill (m : CMD5) : List UInt8 → CMD5 × List UInt8
  | [] => (m, [])
  | x :: l => if m.uBound < 64 then (m.push x).fill l else (m, x :: l)

/-- The loop over the full blocks of the input. -/
def hashBlocks (m : CMD5) (pBuffer : List UInt8) : CMD5 × List UInt8 :=
  if 64 ≤ pBuffer.length then (m.UpdateBlock (pBuffer.take 64)).hashBlocks (pBuffer.drop 64)
  else (m, pBuffer)
termination_by pBuffer.length
decreasing_by
  rw [List.length_drop]
  omega

/-- `Update`; the size is that of the list.  The assertion on a size that is not a
multiple of four guards nothing that follows. -/
def Update (m : CMD5) (pBuffer : List UInt8) : CMD5 :=
  let m := { m with uNumBytes := (m.uNumBytes + pBuffer.length) % 2 ^ 64 }
  let p := if m.uBound ≠ 0 then m.fill pBuffer else (m, pBuffer)
  let m := if p.1.uBound = 64 then p.1.flush else p.1
  let q := m.hashBlocks p.2
  q.2.foldl push q.1

/-- `while(m_uBound < n) m_pBound[m_uBound++] = 0`. -/
def zerosTo (m : CMD5) (n : ℕ) : CMD5 := (List.replicate (n - m.uBound) 0).foldl push m

/-- The two characters the loop appends for one byte. -/
def sToHex : List Char := "0123456789abcdef".toList

def appendHex (sMD5 : String) (h : UInt8) : String :=
  (sMD5.push (sToHex.getD (h >>> 4).toNat '0')).push (sToHex.getD (h &&& 15).toNat '0')

/-- The length in bits behind the buffered bytes; `m_uBound` stays. -/
def appendLength (m : CMD5) : CMD5 :=
  { (lowFirst 8 (m.uNumBytes * 2 ^ 3 % 2 ^ 64)).foldl push m with uBound := m.uBound }

/-- `GetMD5`, with the object it leaves. -/
def GetMD5 (m : CMD5) : String × CMD5 :=
  let m := m.push 0x80
  let m := if 64 - m.uBound < 8 then (m.zerosTo 64).flush else m
  let m := (m.zerosTo (64 - 8)).appendLength
  let m := m.UpdateBlock (m.bytes 64)
  (m.pHash32.bytes.foldl appendHex "", m)

end CMD5

theorem lines_eq_steps : lines = steps := by decide +kernel

theorem F_eq (X Y Z : Word) : F X Y Z = Md5Digest.F X Y Z := by
  apply BitVec.eq_of_getLsbD_eq
  intro i hi
  simp only [F, Md5Digest.F, BitVec.getLsbD_xor, BitVec.getLsbD_and, BitVec.getLsbD_or,
    BitVec.getLsbD_not, hi, decide_true, Bool.true_and]
  cases X.getLsbD i <;> cases Y.getLsbD i <;> cases Z.getLsbD i <;> rfl

theorem G_eq (X Y Z : Word) : G X Y Z = Md5Digest.G X Y Z := by
  apply BitVec.eq_of_getLsbD_eq
  intro i hi
  simp only [G, Md5Digest.G, BitVec.getLsbD_xor, BitVec.getLsbD_and, BitVec.getLsbD_or,
    BitVec.getLsbD_not, hi, decide_true, Bool.true_and]
  cases X.getLsbD i <;> cases Y.getLsbD i <;> cases Z.getLsbD i <;> rfl

theorem fnOf_eq (t : Mix) : fnOf t = t.apply := by
  cases t with
  | F => funext X Y Z; exact F_eq X Y Z
  | G => funext X Y Z; exact G_eq X Y Z
  | H => rfl
  | I => rfl

theorem Rot_eq {s : ℕ} (hs : s < 32) (X : Word) : Rot X s = X.rotateLeft s := by
  rw [Rot, BitVec.rotateLeft_def, Nat.mod_eq_of_lt hs]

theorem shift_lt : ∀ t ∈ steps, t.s < 32 := by decide +kernel

theorem line_eq {t : Step} (hs : t.s < 32) (X : ℕ → Word) (r : Regs) : line X r t = r.step X t := by
  have hMD5 (d x y z : Word) :
      MD5 d x y z (fnOf t.mix) (X t.k) t.T t.s = mixed X t d x y z := by
    rw [MD5, Rot_eq hs, fnOf_eq, mixed, BitVec.add_comm x]
  unfold line Regs.step
  cases t.names <;> simp only [hMD5]

theorem CMD5.UpdateBlock_pHash32 (m : CMD5) (l : List UInt8) :
    (m.UpdateBlock l).pHash32 = m.pHash32.block l := by
  have hfold : lines.foldl (line (wordOf l)) m.pHash32 =
      steps.foldl (Regs.step (wordOf l)) m.pHash32 := by
    rw [lines_eq_steps]
    apply List.foldl_ext
    intro r t ht
    exact line_eq (shift_lt t ht) _ _
  simp only [CMD5.UpdateBlock, Regs.block, hfold]

namespace CMD5

@[simp] theorem UpdateBlock_uBound (m : CMD5) (l : List UInt8) :
    (m.UpdateBlock l).uBound = m.uBound := by
  cases m
  rfl

@[simp] theorem UpdateBlock_uNumBytes (m : CMD5) (l : List UInt8) :
    (m.UpdateBlock l).uNumBytes = m.uNumBytes := by
  cases m
  rfl

@[simp] theorem UpdateBlock_pBound (m : CMD5) (l : List UInt8) :
    (m.UpdateBlock l).pBound = m.pBound := by
  cases m
  rfl

@[simp] theorem UpdateBlock_bytes (m : CMD5) (l : List UInt8) (n : ℕ) :
    (m.UpdateBlock l).bytes n = m.bytes n := by
  rw [bytes, UpdateBlock_pBound, bytes]

@[simp] theorem flush_uBound (m : CMD5) : m.flush.uBound = 0 := by
  simp only [flush]

@[simp] theorem flush_uNumBytes (m : CMD5) : m.flush.uNumBytes = m.uNumBytes := by
  simp only [flush, UpdateBlock_uNumBytes]

@[simp] theorem flush_pHash32 (m : CMD5) : m.flush.pHash32 = m.pHash32.block (m.bytes 64) := by
  simp only [flush, UpdateBlock_pHash32]

attribute [irreducible] UpdateBlock

/-- The bytes that wait for more. -/
def bound (m : CMD5) : List UInt8 := m.bytes m.uBound

/-- What the object comes to when it takes in `l`: the registers behind the full
blocks, and the bytes left over. -/
def comesTo (m : CMD5) (l : List UInt8) : Regs × List UInt8 :=
  (absorb 64 Regs.block m.pHash32 (m.bound ++ l), rest 64 (m.bound ++ l))

@[simp] theorem length_bytes (m : CMD5) (n : ℕ) : (m.bytes n).length = n := by
  rw [bytes, List.length_map, List.length_range]

theorem length_bound (m : CMD5) : m.bound.length = m.uBound := m.length_bytes _

@[simp] theorem bound_push (m : CMD5) (x : UInt8) : (m.push x).bound = m.bound ++ [x] := by
  have hold : ∀ i ∈ List.range m.uBound, Function.update m.pBound m.uBound x i = m.pBound i := by
    intro i hi
    exact Function.update_of_ne (List.mem_range.1 hi).ne _ _
  simp only [bound, bytes, push, List.range_succ, List.map_append, List.map_cons, List.map_nil,
    Function.update_self, List.map_congr_left hold]

theorem comesTo_push (m : CMD5) (x : UInt8) (l : List UInt8) :
    (m.push x).comesTo l = m.comesTo (x :: l) := by
  have hb : (m.push x).bound ++ l = m.bound ++ x :: l := by rw [bound_push, List.append_assoc, List.singleton_append]
  rw [comesTo, comesTo, hb]
  rfl

theorem foldl_push (m : CMD5) (l : List UInt8) :
    (l.foldl push m).pHash32 = m.pHash32 ∧ (l.foldl push m).uNumBytes = m.uNumBytes ∧
      (l.foldl push m).uBound = m.uBound + l.length ∧ (l.foldl push m).bound = m.bound ++ l := by
  induction l generalizing m with
  | nil => exact ⟨rfl, rfl, rfl, (List.append_nil _).symm⟩
  | cons x l ih =>
    obtain ⟨hhash, hnum, hlen, hb⟩ := ih (m.push x)
    refine ⟨hhash, hnum, ?_, ?_⟩
    · rw [List.foldl_cons, hlen, List.length_cons, push, Nat.add_right_comm, Nat.add_assoc]
    · rw [List.foldl_cons, hb, bound_push, List.append_assoc, List.singleton_append]

theorem comesTo_foldl (m : CMD5) (l l' : List UInt8) :
    (l.foldl push m).comesTo l' = m.comesTo (l ++ l') := by
  obtain ⟨hhash, -, -, hb⟩ := m.foldl_push l
  rw [comesTo, comesTo, hhash, hb, List.append_assoc]

variable {m : CMD5}

theorem comesTo_flush (h : m.uBound = 64) (l : List UInt8) : m.flush.comesTo l = m.comesTo l := by
  have hb : m.bound = m.bytes 64 := by rw [bound, h]
  have hlen : (m.bytes 64).length = 64 := m.length_bytes 64
  have hempty : m.flush.bound = [] := by rw [bound, flush_uBound]; rfl
  rw [comesTo, comesTo, hempty, flush_pHash32, hb, List.nil_append, absorb_block (by decide) hlen,
    rest_block (by decide) hlen]

theorem comesTo_fill (m : CMD5) (l : List UInt8) :
    (m.fill l).1.comesTo (m.fill l).2 = m.comesTo l := by
  induction l generalizing m with
  | nil => rfl
  | cons x l ih =>
    rw [fill]
    by_cases h : m.uBound < 64
    · rw [if_pos h, ih, comesTo_push]
    · rw [if_neg h]

theorem fill_uNumBytes (m : CMD5) (l : List UInt8) : (m.fill l).1.uNumBytes = m.uNumBytes := by
  induction l generalizing m with
  | nil => rfl
  | cons x l ih =>
    rw [fill]
    by_cases h : m.uBound < 64
    · rw [if_pos h, ih]; rfl
    · rw [if_neg h]

theorem fill_uBound (h : m.uBound ≤ 64) (l : List UInt8) :
    (m.fill l).1.uBound = 64 ∨ (m.fill l).1.uBound < 64 ∧ (m.fill l).2 = [] := by
  induction l generalizing m with
  | nil => exact h.eq_or_lt.imp id fun hlt => ⟨hlt, rfl⟩
  | cons x l ih =>
    rw [fill]
    by_cases hlt : m.uBound < 64
    · rw [if_pos hlt]
      exact ih hlt
    · rw [if_neg hlt]
      exact .inl (h.antisymm (Nat.le_of_not_lt hlt))

theorem hashBlocks_spec (h : m.uBound = 0) (l : List UInt8) :
    (m.hashBlocks l).1.comesTo (m.hashBlocks l).2 = m.comesTo l ∧
      (m.hashBlocks l).1.uNumBytes = m.uNumBytes ∧ (m.hashBlocks l).1.uBound = 0 ∧
      (m.hashBlocks l).2.length < 64 := by
  induction m, l using hashBlocks.induct with
  | case1 m l hge ih =>
    have hlen : (l.take 64).length = 64 := by rw [List.length_take]; omega
    have hb : m.bound = [] := by rw [bound, h]; rfl
    have hb' : (m.UpdateBlock (l.take 64)).bound = [] := by
      rw [bound, UpdateBlock_bytes, UpdateBlock_uBound, ← bound, hb]
    have hstep : (m.UpdateBlock (l.take 64)).comesTo (l.drop 64) = m.comesTo l := by
      rw [comesTo, comesTo, hb', hb, UpdateBlock_pHash32, List.nil_append, List.nil_append,
        ← absorb_block (by decide) hlen, ← rest_block (by decide) hlen, List.take_append_drop]
    obtain ⟨hto, hnum, hzero, hlt⟩ := ih ((m.UpdateBlock_uBound _).trans h)
    rw [hashBlocks, if_pos hge]
    exact ⟨hto.trans hstep, hnum.trans (m.UpdateBlock_uNumBytes _), hzero, hlt⟩
  | case2 m l hlt =>
    rw [hashBlocks, if_neg hlt]
    exact ⟨rfl, rfl, h, Nat.lt_of_not_le hlt⟩

/-- The object holds what `msg` has brought so far. -/
structure Holds (m : CMD5) (msg : List UInt8) : Prop where
  hash : m.pHash32 = absorb 64 Regs.block initial msg
  bound : m.bound = rest 64 msg
  num : m.uNumBytes = msg.length % 2 ^ 64

variable {msg : List UInt8}

theorem Holds.uBound (h : m.Holds msg) : m.uBound = msg.length % 64 := by
  rw [← length_bound, h.bound, length_rest]

theorem Holds.comesTo (h : m.Holds msg) (l : List UInt8) :
    m.comesTo l = (absorb 64 Regs.block initial (msg ++ l), rest 64 (msg ++ l)) := by
  rw [CMD5.comesTo, h.hash, h.bound, ← absorb_append (by decide), ← rest_append (by decide)]

theorem holds_init (p : ℕ → UInt8) : (init p).Holds [] where
  hash := rfl
  bound := rfl
  num := rfl

theorem comesTo_nil (h : m.uBound < 64) : m.comesTo [] = (m.pHash32, m.bound) := by
  have hlt : (m.bound ++ []).length < 64 := by rw [List.append_nil, length_bound]; exact h
  rw [CMD5.comesTo, absorb_of_lt hlt, rest_of_lt hlt, List.append_nil]

theorem Holds.update (h : m.Holds msg) (l : List UInt8) : (m.Update l).Holds (msg ++ l) := by
  let m0 : CMD5 := { m with uNumBytes := (m.uNumBytes + l.length) % 2 ^ 64 }
  let p := if m0.uBound ≠ 0 then m0.fill l else (m0, l)
  let m1 := if p.1.uBound = 64 then p.1.flush else p.1
  have hlt : m.uBound < 64 := h.uBound ▸ Nat.mod_lt _ (by decide)
  have hp : p.1.comesTo p.2 = m.comesTo l ∧ p.1.uNumBytes = m0.uNumBytes ∧
      (p.1.uBound = 64 ∨ p.1.uBound = 0 ∨ p.1.uBound < 64 ∧ p.2 = []) := by
    by_cases hz : m0.uBound ≠ 0
    · have hpf : p = m0.fill l := if_pos hz
      rw [hpf]
      exact ⟨m0.comesTo_fill l, m0.fill_uNumBytes l, (fill_uBound (m := m0) hlt.le l).imp id .inr⟩
    · have hpf : p = (m0, l) := if_neg hz
      rw [hpf]
      exact ⟨rfl, rfl, .inr (.inl (not_not.1 hz))⟩
  obtain ⟨hpto, hpnum, hpbound⟩ := hp
  have hm : m1.comesTo p.2 = m.comesTo l ∧ m1.uNumBytes = m0.uNumBytes ∧
      (m1.uBound = 0 ∨ m1.uBound < 64 ∧ p.2 = []) := by
    by_cases hf : p.1.uBound = 64
    · have hm1 : m1 = p.1.flush := if_pos hf
      rw [hm1]
      exact ⟨(comesTo_flush hf _).trans hpto, (flush_uNumBytes _).trans hpnum,
        .inl (flush_uBound _)⟩
    · have hm1 : m1 = p.1 := if_neg hf
      rw [hm1]
      exact ⟨hpto, hpnum, hpbound.resolve_left hf⟩
  obtain ⟨hto, hnum, hbound⟩ := hm
  have hq : (m1.hashBlocks p.2).1.comesTo (m1.hashBlocks p.2).2 = m1.comesTo p.2 ∧
      (m1.hashBlocks p.2).1.uNumBytes = m1.uNumBytes ∧
      (m1.hashBlocks p.2).1.uBound + (m1.hashBlocks p.2).2.length < 64 := by
    rcases hbound with hzero | ⟨hlt1, hnil⟩
    · obtain ⟨hqto, hqnum, hqzero, hqlt⟩ := hashBlocks_spec hzero p.2
      exact ⟨hqto, hqnum, by rw [hqzero, Nat.zero_add]; exact hqlt⟩
    · have hstop : m1.hashBlocks [] = (m1, []) := by
        rw [hashBlocks]
        exact if_neg (by simp)
      rw [hnil, hstop]
      exact ⟨rfl, rfl, hlt1⟩
  obtain ⟨hqto, hqnum, hqlt⟩ := hq
  have hUpdate : m.Update l = (m1.hashBlocks p.2).2.foldl push (m1.hashBlocks p.2).1 := rfl
  obtain ⟨-, hnum', hlen', -⟩ := (m1.hashBlocks p.2).1.foldl_push (m1.hashBlocks p.2).2
  rw [← hUpdate] at hnum' hlen'
  have hall : (m.Update l).comesTo [] = m.comesTo l := by
    rw [hUpdate, comesTo_foldl, List.append_nil, hqto, hto]
  rw [comesTo_nil (hlen' ▸ hqlt), h.comesTo, Prod.mk.injEq] at hall
  refine ⟨hall.1, hall.2, ?_⟩
  rw [hnum', hqnum, hnum, List.length_append, Nat.add_mod msg.length, ← h.num, Nat.add_mod_mod]

theorem Holds.updates (h : m.Holds msg) (pieces : List (List UInt8)) :
    (pieces.foldl Update m).Holds (msg ++ pieces.flatten) := by
  induction pieces generalizing m msg with
  | nil => rwa [List.flatten_nil, List.append_nil]
  | cons l pieces ih =>
    rw [List.foldl_cons, List.flatten_cons, ← List.append_assoc]
    exact ih (h.update l)

theorem zerosTo_spec (m : CMD5) {n : ℕ} (h : m.uBound ≤ n) (l : List UInt8) :
    (m.zerosTo n).comesTo l = m.comesTo (List.replicate (n - m.uBound) 0 ++ l) ∧
      (m.zerosTo n).uBound = n ∧ (m.zerosTo n).uNumBytes = m.uNumBytes := by
  obtain ⟨-, hnum, hlen, -⟩ := m.foldl_push (List.replicate (n - m.uBound) 0)
  refine ⟨m.comesTo_foldl _ l, ?_, hnum⟩
  rw [zerosTo, hlen, List.length_replicate, Nat.add_sub_cancel' h]

theorem appendLength_spec (h : m.uBound = 56) :
    (m.appendLength.UpdateBlock (m.appendLength.bytes 64)).pHash32 =
      (m.comesTo (lowFirst 8 (m.uNumBytes * 2 ^ 3 % 2 ^ 64))).1 := by
  obtain ⟨hhash, -, hlen, hb⟩ := m.foldl_push (lowFirst 8 (m.uNumBytes * 2 ^ 3 % 2 ^ 64))
  rw [h, length_lowFirst] at hlen
  have hbytes : m.appendLength.bytes 64 =
      m.bound ++ lowFirst 8 (m.uNumBytes * 2 ^ 3 % 2 ^ 64) := by
    rw [← hb, bound, hlen]
    rfl
  have hash : m.appendLength.pHash32 = m.pHash32 := hhash
  have hlen64 : (m.appendLength.bytes 64 ++ []).length = 64 := by
    rw [List.append_nil, length_bytes]
  rw [UpdateBlock_pHash32, comesTo, ← hbytes, hash, ← List.append_nil (m.appendLength.bytes 64),
    absorb_block (by decide) (m.appendLength.length_bytes 64), absorb_of_lt (by decide),
    List.append_nil]

/-- The bit and the zeros in front of the length.  Where fewer than eight bytes are
left behind the bit, they end a block of their own. -/
theorem pad_spec (h : m.uBound < 64) : let m1 := m.push 0x80
    let m2 := if 64 - m1.uBound < 8 then (m1.zerosTo 64).flush else m1
    ∃ z, (∀ l, m2.comesTo l = m.comesTo (0x80 :: List.replicate z 0 ++ l)) ∧ m2.uBound ≤ 56 ∧
      m2.uNumBytes = m.uNumBytes ∧ z + (56 - m2.uBound) = (119 - m.uBound) % 64 := by
  intro m1 m2
  have hb : m1.uBound = m.uBound + 1 := rfl
  by_cases hc : 64 - m1.uBound < 8
  · have hm2 : m2 = (m1.zerosTo 64).flush := if_pos hc
    have hle : m1.uBound ≤ 64 := h
    refine ⟨64 - m1.uBound, ?_, ?_, ?_, ?_⟩
    · intro l
      obtain ⟨hto, hfull, -⟩ := m1.zerosTo_spec hle l
      rw [hm2, comesTo_flush hfull, hto, comesTo_push, List.cons_append]
    · rw [hm2, flush_uBound]
      exact Nat.zero_le _
    · rw [hm2, flush_uNumBytes]
      exact (m1.zerosTo_spec hle []).2.2
    · rw [hm2, flush_uBound, hb]
      omega
  · have hm2 : m2 = m1 := if_neg hc
    refine ⟨0, ?_, ?_, ?_, ?_⟩
    · intro l
      rw [hm2, comesTo_push]
      rfl
    · rw [hm2]
      omega
    · rw [hm2]
      rfl
    · rw [hm2, hb]
      omega

theorem GetMD5_pHash32 (h : m.Holds msg) :
    m.GetMD5.2.pHash32 = absorb 64 Regs.block initial (msg ++ padding msg.length) := by
  let m1 := m.push 0x80
  let m2 := if 64 - m1.uBound < 8 then (m1.zerosTo 64).flush else m1
  have hlt : m.uBound < 64 := h.uBound ▸ Nat.mod_lt _ (by decide)
  obtain ⟨z, hto, hle, hnum, hz⟩ : ∃ z,
      (∀ l, m2.comesTo l = m.comesTo (0x80 :: List.replicate z 0 ++ l)) ∧ m2.uBound ≤ 56 ∧
        m2.uNumBytes = m.uNumBytes ∧ z + (56 - m2.uBound) = (119 - m.uBound) % 64 := pad_spec hlt
  have hGet : m.GetMD5.2 = (m2.zerosTo 56).appendLength.UpdateBlock
      ((m2.zerosTo 56).appendLength.bytes 64) := rfl
  obtain ⟨hzto, hzbound, hznum⟩ :=
    m2.zerosTo_spec hle (lowFirst 8 ((m2.zerosTo 56).uNumBytes * 2 ^ 3 % 2 ^ 64))
  have hlength : (m2.zerosTo 56).uNumBytes * 2 ^ 3 % 2 ^ 64 = 8 * msg.length % 2 ^ 64 := by
    rw [hznum, hnum, h.num]
    omega
  have hpadding : 0x80 :: List.replicate z 0 ++ (List.replicate (56 - m2.uBound) 0 ++
      lowFirst 8 (8 * msg.length % 2 ^ 64)) = padding msg.length := by
    rw [← List.append_assoc, List.cons_append, List.replicate_append_replicate, hz, h.uBound,
      padding]
  rw [hGet, appendLength_spec hzbound, hzto, hto, hlength, hpadding, h.comesTo]

theorem sToHex_getD : ∀ i < 16, sToHex.getD i '0' = Nat.digitChar i := by decide +kernel

theorem appendHex_eq (s : String) (x : UInt8) :
    appendHex s x = s ++ hex [x] := by
  have hlow : (x &&& 15).toNat = x.toNat % 16 := by
    rw [UInt8.toNat_and]
    exact Nat.and_two_pow_sub_one_eq_mod x.toNat 4
  have hhigh : (x >>> 4).toNat = x.toNat / 16 := by
    rw [UInt8.toNat_shiftRight]
    exact Nat.shiftRight_eq_div_pow _ _
  have hx := x.toNat_lt
  rw [appendHex, hlow, hhigh, sToHex_getD _ (by omega), sToHex_getD _ (by omega)]
  apply String.toList_injective
  simp [hex]

theorem foldl_appendHex (l : List UInt8) (s : String) : l.foldl appendHex s = s ++ hex l := by
  induction l generalizing s with
  | nil => simp [hex]
  | cons x l ih =>
    rw [List.foldl_cons, ih, appendHex_eq]
    apply String.toList_injective
    simp [hex]

/-- The digest of a stream does not depend on the pieces it comes in, and it is
the digest of the RFC. -/
theorem GetMD5_updates (p : ℕ → UInt8) (pieces : List (List UInt8)) :
    ((pieces.foldl Update (init p)).GetMD5).1 = hex (digest pieces.flatten) := by
  have h := (holds_init p).updates pieces
  have hstr : ((pieces.foldl Update (init p)).GetMD5).1 =
      ((pieces.foldl Update (init p)).GetMD5).2.pHash32.bytes.foldl appendHex "" := rfl
  have hempty (t : String) : "" ++ t = t := by
    apply String.toList_injective
    simp
  rw [hstr, GetMD5_pHash32 h, foldl_appendHex, hempty, digest, List.nil_append]

end CMD5

end Md5Updates
