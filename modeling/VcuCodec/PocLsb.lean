import VcuCodec.LsbCounters
import VcuCodec.MachineInts

/-!
# The MSB of an order count

The comparison by which both decoders extend the LSB that a slice header sends,
on `uint32_t` operands with an `int32_t` result.
-/

namespace VcuCodec

/-- The MSB for `uPocLSB` next to the order count `iPrevPocMSB + uPrevPocLSB`. -/
def nextPocMsb (uMaxPocLSB : ℕ) (iPrevPocMSB : ℤ) (uPrevPocLSB uPocLSB : ℕ) : ℤ :=
  if uPocLSB < uPrevPocLSB ∧ uMaxPocLSB / 2 ≤ uPrevPocLSB - uPocLSB then
    toInt32 (iPrevPocMSB + uMaxPocLSB)
  else if uPrevPocLSB < uPocLSB ∧ uMaxPocLSB / 2 < uPocLSB - uPrevPocLSB then
    toInt32 (iPrevPocMSB - uMaxPocLSB)
  else iPrevPocMSB

theorem nextPocMsb_eq (max : ℕ) (prevMsb : ℤ) (prevLsb lsb : ℕ) :
    nextPocMsb max (toInt32 prevMsb) prevLsb lsb =
      toInt32 (LsbCounters.msb max prevMsb prevLsb lsb) := by
  unfold nextPocMsb LsbCounters.msb
  rw [toInt32_toInt32_add, toInt32_toInt32_sub, ← apply_ite toInt32, ← apply_ite toInt32]
  apply congrArg toInt32
  split_ifs <;> first | rfl | omega

end VcuCodec
