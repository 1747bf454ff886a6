import VcuCodec.BitStreamLite

/-!
# The CABAC encoder

`lib_bitstream/Cabac.c`.  The loop of `RenormE` takes the number of rounds it is given.
-/

namespace VcuCodec

def AL_TabRangeLPS : List (List ℕ) := [
  [128, 176, 208, 240], [128, 167, 197, 227], [128, 158, 187, 216], [123, 150, 178, 205],
  [116, 142, 169, 195], [111, 135, 160, 185], [105, 128, 152, 175], [100, 122, 144, 166],
  [95, 116, 137, 158], [90, 110, 130, 150], [85, 104, 123, 142], [81, 99, 117, 135],
  [77, 94, 111, 128], [73, 89, 105, 122], [69, 85, 100, 116], [66, 80, 95, 110],
  [62, 76, 90, 104], [59, 72, 86, 99], [56, 69, 81, 94], [53, 65, 77, 89],
  [51, 62, 73, 85], [48, 59, 69, 80], [46, 56, 66, 76], [43, 53, 63, 72],
  [41, 50, 59, 69], [39, 48, 56, 65], [37, 45, 54, 62], [35, 43, 51, 59],
  [33, 41, 48, 56], [32, 39, 46, 53], [30, 37, 43, 50], [29, 35, 41, 48],
  [27, 33, 39, 45], [26, 31, 37, 43], [24, 30, 35, 41], [23, 28, 33, 39],
  [22, 27, 32, 37], [21, 26, 30, 35], [20, 24, 29, 33], [19, 23, 27, 31],
  [18, 22, 26, 30], [17, 21, 25, 28], [16, 20, 23, 27], [15, 19, 22, 25],
  [14, 18, 21, 24], [14, 17, 20, 23], [13, 16, 19, 22], [12, 15, 18, 21],
  [12, 14, 17, 20], [11, 14, 16, 19], [11, 13, 15, 18], [10, 12, 15, 17],
  [10, 12, 14, 16], [9, 11, 13, 15], [9, 11, 12, 14], [8, 10, 12, 14],
  [8, 9, 11, 13], [7, 9, 11, 12], [7, 9, 10, 12], [7, 8, 10, 11],
  [6, 8, 9, 11], [6, 7, 9, 10], [6, 7, 8, 9], [2, 2, 2, 2]]

def AL_transIdxMPS : List ℕ := [
  1, 2, 3, 4, 5, 6, 7, 8, 9, 10, 11, 12, 13, 14, 15, 16,
  17, 18, 19, 20, 21, 22, 23, 24, 25, 26, 27, 28, 29, 30, 31, 32,
  33, 34, 35, 36, 37, 38, 39, 40, 41, 42, 43, 44, 45, 46, 47, 48,
  49, 50, 51, 52, 53, 54, 55, 56, 57, 58, 59, 60, 61, 62, 62, 63]

def AL_transIdxLPS : List ℕ := [
  0, 0, 1, 2, 2, 4, 4, 5, 6, 7, 8, 9, 9, 11, 11, 12,
  13, 13, 15, 15, 16, 16, 18, 18, 19, 19, 21, 21, 22, 22, 23, 24,
  24, 25, 26, 26, 27, 27, 28, 29, 29, 30, 30, 30, 31, 32, 32, 33,
  33, 33, 34, 34, 35, 35, 35, 36, 36, 36, 37, 37, 37, 38, 38, 63]

/-- `pState` and `pValMPS`. -/
structure ContextState where
  pState : Fin 64
  valMPS : Bool
  deriving DecidableEq

def rangeLPS (pState : Fin 64) (idx : ℕ) : ℕ := (AL_TabRangeLPS.getD pState []).getD idx 0

def ContextState.toMPS (state : ContextState) : ContextState :=
  { state with pState := Fin.ofNat 64 (AL_transIdxMPS.getD state.pState 0) }

def ContextState.toLPS (state : ContextState) : ContextState where
  pState := Fin.ofNat 64 (AL_transIdxLPS.getD state.pState 0)
  valMPS := if state.pState = 0 then !state.valMPS else state.valMPS

/-- `AL_TCabacCtx` -/
structure CabacCtx where
  uLow : ℕ
  uRange : ℕ
  uOut : ℕ
  uFirst : ℕ
  deriving DecidableEq

namespace CabacCtx

def init : CabacCtx := ⟨0, 0x1FE, 0, 1⟩

/-- The loop of `PutBit`, 32 outstanding bits a round. -/
def outRound (uValue : ℕ) : BitStreamLite × ℤ → (BitStreamLite × ℤ) ⊕ (BitStreamLite × ℤ)
  | (pBS, iNumBits) => if 32 < iNumBits then .inl (pBS.putBits 32 uValue, iNumBits - 32) else .inr (pBS, iNumBits)

theorem outRound_lt (uValue : ℕ) (t t' : BitStreamLite × ℤ) (h : outRound uValue t = .inl t') :
    t'.2.toNat < t.2.toNat := by
  obtain ⟨pBS, iNumBits⟩ := t
  simp only [outRound] at h
  split at h
  · obtain rfl := Sum.inl.inj h
    dsimp only
    omega
  · exact absurd h Sum.inr_ne_inl

/-- The second half of `PutBit`. -/
def putOutstanding (pBS : BitStreamLite) (c : CabacCtx) (b : ℕ) : Option (BitStreamLite × CabacCtx) :=
  if c.uOut = 0 then some (pBS, c)
  else
    let uValue := toUInt32 ((1 - b) * -1)
    let (pBS, iNumBits) :=
      MeasuredLoops.run (outRound uValue) (·.2.toNat) (outRound_lt uValue) (pBS, toInt32 c.uOut)
    -- the shift is undefined unless a bit is left
    if 0 < iNumBits then
      some (pBS.putBits iNumBits.toNat (uValue >>> (32 - iNumBits).toNat), { c with uOut := 0 })
    else none

def putBit (pBS : BitStreamLite) (c : CabacCtx) (b : ℕ) : Option (BitStreamLite × CabacCtx) :=
  if c.uFirst ≠ 0 then putOutstanding pBS { c with uFirst := 0 } b else putOutstanding (pBS.putBit b) c b

/-- The loop of `RenormE`. -/
def renormRound : BitStreamLite × CabacCtx → (BitStreamLite × CabacCtx) ⊕ Option (BitStreamLite × CabacCtx)
  | (pBS, c) =>
    if c.uRange < 0x100 then
      if 0x200 ≤ c.uLow ∨ c.uLow < 0x100 then
        match c.putBit pBS (c.uLow >>> 9 % 2 ^ 8) with
        | none => .inr none
        | some (pBS, c) => .inl (pBS, { c with
            uLow := (c.uLow &&& 0x1ff) <<< 1 % 2 ^ 32
            uRange := c.uRange <<< 1 % 2 ^ 32 })
      else .inl (pBS, { c with
        uOut := (c.uOut + 1) % 2 ^ 32
        uLow := (c.uLow - 0x100) <<< 1 % 2 ^ 32
        uRange := c.uRange <<< 1 % 2 ^ 32 })
    else .inr (some (pBS, c))

def renormE (fuel : ℕ) (pBS : BitStreamLite) (c : CabacCtx) : Option (BitStreamLite × CabacCtx) :=
  (MeasuredLoops.loop renormRound fuel (pBS, c)).join

/-- The interval that `AL_Cabac_WriteBin` takes, and the next state of the context. -/
def writeBinStep (c : CabacCtx) (state : ContextState) (iBinVal : Bool) : CabacCtx × ContextState :=
  let uCodIRangeLPS := rangeLPS state.pState (c.uRange >>> 6 &&& 0x03)
  let uRange := toUInt32 (c.uRange - uCodIRangeLPS)
  if state.valMPS ≠ iBinVal then
    ({ c with
      uLow := (c.uLow + uRange) % 2 ^ 32
      uRange := uCodIRangeLPS }, state.toLPS)
  else ({ c with uRange }, state.toMPS)

def writeBin (fuel : ℕ) (pBS : BitStreamLite) (c : CabacCtx) (state : ContextState) (iBinVal : Bool) :
    Option (BitStreamLite × CabacCtx × ContextState) :=
  let (c, state) := c.writeBinStep state iBinVal
  (renormE fuel pBS c).map fun (pBS, c) => (pBS, c, state)

def terminateStep (c : CabacCtx) (iBinVal : Bool) : CabacCtx :=
  let uRange := toUInt32 (c.uRange - 2)
  if iBinVal then { c with
    uLow := (c.uLow + uRange) % 2 ^ 32
    uRange := 2 }
  else { c with uRange }

def terminate (fuel : ℕ) (pBS : BitStreamLite) (c : CabacCtx) (iBinVal : Bool) : Option (BitStreamLite × CabacCtx) :=
  renormE fuel pBS (c.terminateStep iBinVal)

def finish (pBS : BitStreamLite) (c : CabacCtx) : Option BitStreamLite :=
  (c.putBit pBS (c.uLow >>> 9 &&& 1)).map fun (pBS, c) =>
    (pBS.putBits 2 ((c.uLow >>> 7 &&& 0x03) ||| 0x01)).alignWithBits 0

end CabacCtx

/-! ## Sequences of bins -/

/-- A bin that is coded with a context, or a terminate bin. -/
inductive CabacBin
  | context (ctxIdx : ℕ) (binVal : Bool)
  | terminate (binVal : Bool)
  deriving DecidableEq

/-- The calls for a sequence of bins. -/
def writeBins (fuel : ℕ) : List CabacBin → BitStreamLite → CabacCtx → (ℕ → ContextState) →
    Option (BitStreamLite × CabacCtx × (ℕ → ContextState))
  | [], pBS, c, states => some (pBS, c, states)
  | .context ctxIdx binVal :: bins, pBS, c, states =>
    (c.writeBin fuel pBS (states ctxIdx) binVal).bind fun (pBS, c, state) =>
      writeBins fuel bins pBS c (Function.update states ctxIdx state)
  | .terminate binVal :: bins, pBS, c, states =>
    (c.terminate fuel pBS binVal).bind fun (pBS, c) => writeBins fuel bins pBS c states

end VcuCodec
