/-
  The remainder of a division of doubles that cuts toward zero.

  `x - n * y` for the whole `n` between zero and `x / y` that is nearest to
  `x / y`. It is exact: both magnitudes are whole numbers of units, and their
  remainder is a double again. It has the sign of `x`, a zero included.
-/
import Reckoner.Binary64

namespace Reckoner

open Binary64

/-- The remainder of `x` by `y`. An infinite `x` has none, unless `y` is no
    number, which then is the answer. A zero `y` leaves `x` as it is. -/
def remainder (x y : Float) : Option Float :=
  if isUndefined x then some x
  else if isUndefined y then some y
  else if isInfinite x then none
  else if isInfinite y then some x
  else some (ofRank (negative x) (nearestUnits (units (rank x) % units (rank y)) 1))

/-- Only an infinite dividend by a number has no remainder. -/
theorem remainder_eq_none_iff (x y : Float) :
    remainder x y = none ↔ isInfinite x = true ∧ isUndefined y = false := by
  have disjoint : isInfinite x = true → isUndefined x = false := by
    simp only [isInfinite, isUndefined, decide_eq_true_eq, decide_eq_false_iff_not]
    omega
  unfold remainder
  cases hx : isInfinite x <;> cases hy : isUndefined y <;> cases hu : isUndefined x <;>
    cases hi : isInfinite y <;> simp_all

end Reckoner
