/-
  The non-negative doubles as a ladder of whole numbers.

  Every finite double is a multiple of the least positive one, `2 ^ -1074`, so
  a magnitude is a natural number of such units (`units`). The doubles from
  zero up to infinity, in increasing order, carry the bit patterns
  `0, 1, 2, …, 2047 * 2 ^ 52`; that number is a double's `rank`. `rank` drops
  the sign, `ofRank` puts one back.

  `nearest num den` is the rank of the double nearest to `num / den`. It is
  computed on natural numbers alone: the quotient in units is cut to 53 binary
  places and rounded to the nearest whole, a tie to the even neighbour. A
  quotient too large for any finite double has the rank of infinity.
-/
namespace Reckoner.Binary64

/-! ## Ranks -/

/-- The rank of infinity. A higher rank is no number. -/
def infiniteRank : Nat := 2047 * Nat.pow 2 52

/-- The place of `x`'s magnitude among the doubles from zero up. -/
def rank (x : Float) : Nat := x.toBits.toNat % Nat.pow 2 63

/-- The sign bit. It also tells `-0` from `0`. -/
def negative (x : Float) : Bool := Nat.pow 2 63 ≤ x.toBits.toNat

/-- The double of a rank, with a sign bit. -/
def ofRank (negative : Bool) (k : Nat) : Float :=
  Float.ofBits (UInt64.ofNat (k + if negative then Nat.pow 2 63 else 0))

def isInfinite (x : Float) : Bool := rank x = infiniteRank

def isUndefined (x : Float) : Bool := infiniteRank < rank x

/-- The magnitude of a finite rank, in units of `2 ^ -1074`. -/
def units (k : Nat) : Nat :=
  if k < Nat.pow 2 53 then k
  else (Nat.pow 2 52 + k % Nat.pow 2 52) * Nat.pow 2 (k / Nat.pow 2 52 - 1)

theorem units_of_lt {k : Nat} (h : k < Nat.pow 2 53) : units k = k := if_pos h

/-! ## Rounding -/

/-- `n / d` to the nearest whole number, a tie to the even one. -/
def roundHalfEven (n d : Nat) : Nat :=
  let q := n / d
  let r := n % d
  if 2 * r < d then q
  else if d < 2 * r then q + 1
  else q + q % 2

/-- How many binary places of `n / d` a double drops: all but its first 53. -/
def dropped (n d : Nat) : Nat := (n / d).log2 - 52

/-- The rank of the double nearest to `n / d` units. A quotient that keeps 53
    places and drops `p` has the rank `p * 2 ^ 52` above them. -/
def nearestUnits (n d : Nat) : Nat :=
  let p := dropped n d
  min infiniteRank (p * Nat.pow 2 52 + roundHalfEven n (d * Nat.pow 2 p))

/-- How many units make one. -/
def unitsPerOne : Nat := Nat.pow 2 1074

/-- The rank of the double nearest to `num / den`. -/
def nearest (num den : Nat) : Nat := nearestUnits (num * unitsPerOne) den

theorem nearest_le (num den : Nat) : nearest num den ≤ infiniteRank := Nat.min_le_left _ _

/-- A whole number of the divisor is its own rounding. -/
theorem roundHalfEven_mul (k : Nat) {d : Nat} (hd : 0 < d) : roundHalfEven (k * d) d = k := by
  simp [roundHalfEven, Nat.mul_div_cancel _ hd, hd]

/-- What stays after the drop has at most 53 binary places. -/
theorem div_dropped_lt (n d : Nat) : n / d / Nat.pow 2 (dropped n d) < Nat.pow 2 53 := by
  rw [Nat.pow_eq, Nat.pow_eq, Nat.div_lt_iff_lt_mul (Nat.two_pow_pos _), ← Nat.pow_add]
  refine Nat.lt_of_lt_of_le Nat.lt_log2_self (Nat.pow_le_pow_right (by decide) ?_)
  unfold dropped
  omega

end Reckoner.Binary64
