import Mathlib.Tactic.Common
import Mathlib.Algebra.Order.Ring.Nat

/-!
# Clocks that wrap

A counter of a fixed width shows the time modulo its range.  Two readings are
compared by the sign of their difference, which is right as long as the times
are less than half the range apart.

Main results:

- Theorem {lit}`timeAfter_iff`: the comparison of two readings is that of the
  times.
-/

namespace MdioTools.Library

variable {w : Nat}

/-- `time_after(a, b)`: the difference `b - a` is negative as a signed number. -/
def timeAfter (a b : BitVec (w + 1)) : Bool :=
  (b - a).slt 0

/-- The reading of a counter at a time. -/
def reading (w : Nat) (t : Nat) : BitVec (w + 1) :=
  BitVec.ofNat (w + 1) t

/-- Readings of times that are less than half the range apart compare as the
times do. -/
theorem timeAfter_iff {t d : Nat} (hlate : t < d + 2 ^ w) (hearly : d < t + 2 ^ w) :
    timeAfter (reading w t) (reading w d) = true ↔ d < t := by
  have hrange : 2 ^ (w + 1) = 2 * 2 ^ w := by rw [Nat.pow_succ, Nat.mul_comm]
  have hdiff : (reading w d - reading w t).toInt = (d : Int) - t := by
    rw [BitVec.toInt_sub, reading, reading, BitVec.toInt_ofNat', BitVec.toInt_ofNat',
      Int.bmod_sub_bmod, Int.sub_bmod_bmod]
    exact Int.bmod_eq_of_le (by omega) (by omega)
  unfold timeAfter
  rw [BitVec.slt_eq_decide, hdiff, decide_eq_true_iff]
  rw [show (0 : BitVec (w + 1)).toInt = 0 from BitVec.toInt_zero]
  omega

end MdioTools.Library
