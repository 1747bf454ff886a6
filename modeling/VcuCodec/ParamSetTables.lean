import VcuCodec.AvcPps
import VcuCodec.HevcTiles

/-!
# The tables of parameter sets

`parsePPSandUpdateConcealment` and `parseAndApplySPS` of `lib_decode/AvcDecoder.c` and
`lib_decode/HevcDecoder.c`.  What is parsed of a sequence parameter set stands in a
temporary one, which is all that its parser writes; it is a computation on the bit
stream here.  The end of an ongoing frame, in front of a set of another size, leaves
the tables alone.
-/

namespace VcuCodec

open CheckedRuns Checked Parse

/-! ## The code -/

/-- The fields of `tConceal` that a picture parameter set is entered in. -/
structure PpsConceal where
  bHasPPS : Bool
  iLastPPSId : ℤ

/-- A set that can be used. -/
def PpsConceal.enter (c : PpsConceal) (ppsId : ℕ) : PpsConceal where
  bHasPPS := true
  iLastPPSId := if c.iLastPPSId ≤ ppsId then ppsId else c.iLastPPSId

namespace AvcAup

end AvcAup

namespace HevcAup

end HevcAup

/-! ### The front of the HEVC sequence parameter set -/

/-- No entry of a table but `id` changes. -/
def OnlyAt {α : Type} {n : ℕ} (id : ℕ) (t t' : Vector α n) : Prop :=
  ∀ j (h : j < n), j ≠ id → t'[j] = t[j]

theorem OnlyAt.refl {α : Type} {n : ℕ} (id : ℕ) (t : Vector α n) : OnlyAt id t t :=
  fun _ _ _ => rfl

namespace AvcAup

variable {fuel unset : ℕ} {tempPPS : AvcPps} {aup : AvcAup} {p q : RbspParser}

end AvcAup

/-! ## HEVC -/

namespace HevcAup

variable {fuel unset : ℕ} {aup : HevcAup} {p q : RbspParser}

end HevcAup

/-! ## The tables of a decoder -/

end VcuCodec
