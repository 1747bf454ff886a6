import VcuCodec.BlockStreams

/-!
# The digest of RFC 1321

The message is padded to full blocks of 64 bytes: one bit, zeros, and the length
in bits modulo `2 ^ 64`.  Each block mixes its sixteen words into four registers
by 64 steps, and the registers are added to the state.  Nothing here is taken
from the code.
-/

namespace Md5Digest

open BlockStreams

abbrev Word := BitVec 32

/-- Four registers, or the state between two blocks. -/
@[ext] structure Regs where
  a : Word
  b : Word
  c : Word
  d : Word
deriving DecidableEq

def F (X Y Z : Word) : Word := (X &&& Y) ||| (~~~X &&& Z)
def G (X Y Z : Word) : Word := (X &&& Z) ||| (Y &&& ~~~Z)
def H (X Y Z : Word) : Word := X ^^^ Y ^^^ Z
def I (X Y Z : Word) : Word := Y ^^^ (X ||| ~~~Z)

/-- Which of the four functions a step mixes with. -/
inductive Mix where
  | F | G | H | I
deriving DecidableEq

def Mix.apply : Mix → Word → Word → Word → Word
  | .F => Md5Digest.F
  | .G => Md5Digest.G
  | .H => Md5Digest.H
  | .I => Md5Digest.I

/-- The order in which a step names the registers; the first one is assigned. -/
inductive Names where
  | abcd | dabc | cdab | bcda
deriving DecidableEq

/-- `[abcd k s i]`: the names, the function, the word, the constant and the shift. -/
structure Step where
  names : Names
  mix : Mix
  k : ℕ
  T : Word
  s : ℕ
deriving DecidableEq

/-- The constants: the integer part of `2 ^ 32 * |sin i|` for `i` from one. -/
def T : List Word :=
  [0xd76aa478, 0xe8c7b756, 0x242070db, 0xc1bdceee, 0xf57c0faf, 0x4787c62a, 0xa8304613, 0xfd469501,
   0x698098d8, 0x8b44f7af, 0xffff5bb1, 0x895cd7be, 0x6b901122, 0xfd987193, 0xa679438e, 0x49b40821,
   0xf61e2562, 0xc040b340, 0x265e5a51, 0xe9b6c7aa, 0xd62f105d, 0x02441453, 0xd8a1e681, 0xe7d3fbc8,
   0x21e1cde6, 0xc33707d6, 0xf4d50d87, 0x455a14ed, 0xa9e3e905, 0xfcefa3f8, 0x676f02d9, 0x8d2a4c8a,
   0xfffa3942, 0x8771f681, 0x6d9d6122, 0xfde5380c, 0xa4beea44, 0x4bdecfa9, 0xf6bb4b60, 0xbebfbc70,
   0x289b7ec6, 0xeaa127fa, 0xd4ef3085, 0x04881d05, 0xd9d4d039, 0xe6db99e5, 0x1fa27cf8, 0xc4ac5665,
   0xf4292244, 0x432aff97, 0xab9423a7, 0xfc93a039, 0x655b59c3, 0x8f0ccc92, 0xffeff47d, 0x85845dd1,
   0x6fa87e4f, 0xfe2ce6e0, 0xa3014314, 0x4e0811a1, 0xf7537e82, 0xbd3af235, 0x2ad7d2bb, 0xeb86d391]

/-- The `i`-th step of round `r`: every round goes through the words of the block
in strides of its own. -/
def stepOf (r i : ℕ) : Step :=
  let mix := [Mix.F, .G, .H, .I].getD r .F
  let k := [i % 16, (5 * i + 1) % 16, (3 * i + 5) % 16, 7 * i % 16].getD r 0
  let shifts := [[7, 12, 17, 22], [5, 9, 14, 20], [4, 11, 16, 23], [6, 10, 15, 21]].getD r []
  ⟨[Names.abcd, .dabc, .cdab, .bcda].getD (i % 4) .abcd, mix, k, T.getD (16 * r + i) 0,
    shifts.getD (i % 4) 0⟩

def steps : List Step :=
  (List.range 4).flatMap fun r => (List.range 16).map (stepOf r)

/-- `a = b + ((a + f(b,c,d) + X[k] + T[i]) <<< s)`. -/
def mixed (X : ℕ → Word) (t : Step) (a b c d : Word) : Word :=
  b + (a + t.mix.apply b c d + X t.k + t.T).rotateLeft t.s

def Regs.step (X : ℕ → Word) (r : Regs) (t : Step) : Regs :=
  match t.names with
  | .abcd => { r with a := mixed X t r.a r.b r.c r.d }
  | .dabc => { r with d := mixed X t r.d r.a r.b r.c }
  | .cdab => { r with c := mixed X t r.c r.d r.a r.b }
  | .bcda => { r with b := mixed X t r.b r.c r.d r.a }

/-- Four bytes as a word, the low-order byte first. -/
def wordOf (l : List UInt8) (k : ℕ) : Word :=
  BitVec.ofNat 32 ((l.getD (4 * k) 0).toNat + 2 ^ 8 * (l.getD (4 * k + 1) 0).toNat +
    2 ^ 16 * (l.getD (4 * k + 2) 0).toNat + 2 ^ 24 * (l.getD (4 * k + 3) 0).toNat)

/-- One block. -/
def Regs.block (r : Regs) (l : List UInt8) : Regs :=
  let m := steps.foldl (Regs.step (wordOf l)) r
  ⟨r.a + m.a, r.b + m.b, r.c + m.c, r.d + m.d⟩

def initial : Regs := ⟨0x67452301, 0xefcdab89, 0x98badcfe, 0x10325476⟩

/-- `n` bytes of a number, the low-order byte first. -/
def lowFirst (n x : ℕ) : List UInt8 := (List.range n).map fun i => UInt8.ofNat (x / 2 ^ (8 * i))

/-- The padding behind a message of `n` bytes. -/
def padding (n : ℕ) : List UInt8 :=
  0x80 :: List.replicate ((119 - n % 64) % 64) 0 ++ lowFirst 8 (8 * n % 2 ^ 64)

def Regs.bytes (r : Regs) : List UInt8 :=
  [r.a, r.b, r.c, r.d].flatMap fun w => lowFirst 4 w.toNat

/-- The sixteen bytes of the digest. -/
def digest (l : List UInt8) : List UInt8 :=
  (absorb 64 Regs.block initial (l ++ padding l.length)).bytes

/-- The digest in print: two digits for each byte, the high one first. -/
def hex (l : List UInt8) : String :=
  String.ofList (l.flatMap fun x => [Nat.digitChar (x.toNat / 16), Nat.digitChar (x.toNat % 16)])

theorem length_lowFirst (n x : ℕ) : (lowFirst n x).length = n := by
  rw [lowFirst, List.length_map, List.length_range]

example : hex (digest []) = "d41d8cd98f00b204e9800998ecf8427e" := by decide +kernel

-- "abc"
example : hex (digest [97, 98, 99]) = "900150983cd24fb0d6963f7d28e17f72" := by decide +kernel

end Md5Digest
