/-
  From a decimal `m * 10 ^ e` to the nearest double.

  `nearest m e` is the rank of the double nearest to `m * 10 ^ e`. Two cases
  are settled without the power of ten, so that an exponent of any length costs
  nothing: a whole number beyond `10 ^ 400` is infinite, and a fraction below
  half the least double is zero. `nearest_of_nonneg` and `nearest_of_neg` say
  that both shortcuts give what the exact quotient gives.
-/
import Reckoner.Binary64

namespace Reckoner.Decimal

open Binary64

/-- The rank of the double nearest to `m * 10 ^ e`. -/
def nearest (m : Nat) : Int → Nat
  | .ofNat k =>
    if m = 0 then 0
    else if 400 < k then infiniteRank
    else Binary64.nearest (m * Nat.pow 10 k) 1
  | .negSucc k =>
    if m.log2 + 1076 ≤ 3 * (k + 1) then 0
    else Binary64.nearest m (Nat.pow 10 (k + 1))

/-! ## The shortcuts -/

theorem nearestUnits_zero {d : Nat} (hd : 0 < d) : nearestUnits 0 d = 0 := by
  have := roundHalfEven_mul 0 hd
  simp_all [nearestUnits, dropped]

/-- Far enough up there is only infinity. -/
theorem nearest_of_le {a p : Nat} (hp : 1025 ≤ p) (h : Nat.pow 2 p ≤ a) :
    Binary64.nearest a 1 = infiniteRank := by
  have ha : Nat.pow 2 (p + 1074) ≤ a * unitsPerOne := by
    rw [Nat.pow_eq, Nat.pow_add]
    exact Nat.mul_le_mul_right _ h
  have hne : a * unitsPerOne ≠ 0 :=
    Nat.pos_iff_ne_zero.mp (Nat.lt_of_lt_of_le (Nat.two_pow_pos _) ha)
  have hlog : p + 1074 ≤ (a * unitsPerOne).log2 := (Nat.le_log2 hne).mpr ha
  refine Nat.min_eq_left (Nat.le_trans ?_ (Nat.le_add_right _ _))
  refine Nat.mul_le_mul_right _ ?_
  simp only [dropped, Nat.div_one]
  omega

/-- Less than half a unit is nearest to zero. -/
theorem nearestUnits_of_lt {n d : Nat} (h : 2 * n < d) : nearestUnits n d = 0 := by
  have hdiv : n / d = 0 := Nat.div_eq_of_lt (by omega)
  have hmod : n % d = n := Nat.mod_eq_of_lt (by omega)
  simp [nearestUnits, dropped, roundHalfEven, hdiv, hmod, h]

theorem two_pow_le_ten_pow (k : Nat) : Nat.pow 2 (3 * k) ≤ Nat.pow 10 k := by
  rw [Nat.pow_eq, Nat.pow_mul]
  exact Nat.pow_le_pow_left (by decide) k

theorem two_mul_mul_pow (m k : Nat) : 2 * (m * Nat.pow 2 k) = m * Nat.pow 2 (k + 1) := by
  rw [Nat.mul_left_comm, Nat.pow_eq, Nat.pow_eq, ← Nat.pow_succ']

theorem two_mul_units (m : Nat) : 2 * (m * unitsPerOne) = m * Nat.pow 2 1075 := two_mul_mul_pow m 1074

theorem nearest_of_nonneg (m k : Nat) :
    nearest m (.ofNat k) = Binary64.nearest (m * Nat.pow 10 k) 1 := by
  simp only [nearest]
  split
  · next hm =>
    subst hm
    rw [Nat.zero_mul, Binary64.nearest, Nat.zero_mul, nearestUnits_zero Nat.one_pos]
  · next hm =>
    split
    · next hk =>
      refine (nearest_of_le (show 1025 ≤ 3 * k by omega) ?_).symm
      exact Nat.le_trans (two_pow_le_ten_pow k) (Nat.le_mul_of_pos_left _ (by omega))
    · rfl

theorem nearest_of_neg (m k : Nat) :
    nearest m (.negSucc k) = Binary64.nearest m (Nat.pow 10 (k + 1)) := by
  simp only [nearest]
  split
  · next h =>
    refine (nearestUnits_of_lt ?_).symm
    have hm : m * Nat.pow 2 1075 < Nat.pow 2 (m.log2 + 1) * Nat.pow 2 1075 :=
      Nat.mul_lt_mul_of_pos_right Nat.lt_log2_self (Nat.two_pow_pos _)
    rw [Nat.pow_eq, Nat.pow_eq, ← Nat.pow_add] at hm
    rw [two_mul_units]
    exact Nat.lt_of_lt_of_le hm (Nat.le_trans (Nat.pow_le_pow_right (by decide) (by omega))
      (two_pow_le_ten_pow _))
  · rfl

end Reckoner.Decimal
