/-
  The shortest decimal reads back.

  Rounding sees a quotient and not how it is written (`nearestUnits_mul`), so a
  decimal may be given more zeros, or a power of ten on both sides of the quotient
  (`nearest_eq`, `nearest_mul`). A double is its own rounding (`nearestUnits_units`):
  its magnitude is `m * 2 ^ e` units with 53 binary places in `m`, and to drop `e`
  of them drops nothing.

  Proved: `toRank_exact`, that all digits of a double read back, and from it
  `toRank_shortest`, that the digits with which it is written do.
-/
import Mathlib
import Reckoner.Decimal.Shortest

namespace Reckoner

namespace Binary64

/-! ## Only the quotient counts -/

theorem roundHalfEven_mul_mul (n d : Nat) {c : Nat} (hc : 0 < c) :
    roundHalfEven (n * c) (d * c) = roundHalfEven n d := by
  unfold roundHalfEven
  dsimp only
  rw [Nat.mul_div_mul_right _ _ hc, Nat.mul_mod_mul_right, ← Nat.mul_assoc]
  simp only [Nat.mul_lt_mul_right hc]

theorem nearestUnits_mul (n d : Nat) {c : Nat} (hc : 0 < c) :
    nearestUnits (n * c) (d * c) = nearestUnits n d := by
  have hdropped : dropped (n * c) (d * c) = dropped n d := by
    rw [dropped, dropped, Nat.mul_div_mul_right _ _ hc]
  unfold nearestUnits
  dsimp only
  rw [hdropped, Nat.mul_right_comm d c, roundHalfEven_mul_mul _ _ hc]

theorem nearest_mul (num den : Nat) {c : Nat} (hc : 0 < c) :
    nearest (num * c) (den * c) = nearest num den := by
  rw [nearest, nearest, Nat.mul_right_comm, nearestUnits_mul _ _ hc]

/-! ## A double is its own rounding -/

theorem log2_mul_two_pow {m : Nat} (h : Nat.pow 2 52 ≤ m) (h' : m < Nat.pow 2 53) (e : Nat) :
    (m * Nat.pow 2 e).log2 = 52 + e := by
  simp only [Nat.pow_eq] at h h' ⊢
  have hpos : 0 < 2 ^ e := Nat.two_pow_pos e
  have hne : m * 2 ^ e ≠ 0 := Nat.mul_ne_zero (by omega) hpos.ne'
  have hsucc : 52 + e + 1 = 53 + e := by omega
  refine (Nat.log2_eq_iff hne).mpr ⟨?_, ?_⟩
  · rw [Nat.pow_add]
    exact Nat.mul_le_mul_right _ h
  · rw [hsucc, Nat.pow_add]
    exact Nat.mul_lt_mul_of_pos_right h' hpos

/-- Above the least exponent a rank is an exponent and 53 places. -/
theorem units_eq {k : Nat} (h : Nat.pow 2 53 ≤ k) :
    ∃ m e, units k = m * Nat.pow 2 e ∧ Nat.pow 2 52 ≤ m ∧ m < Nat.pow 2 53 ∧
      k = e * Nat.pow 2 52 + m := by
  refine ⟨Nat.pow 2 52 + k % Nat.pow 2 52, k / Nat.pow 2 52 - 1, if_neg (Nat.not_lt.mpr h), ?_⟩
  simp only [Nat.pow_eq] at h ⊢
  omega

theorem nearestUnits_units {k : Nat} (h : k ≤ infiniteRank) : nearestUnits (units k) 1 = k := by
  unfold nearestUnits dropped
  dsimp only
  rw [Nat.div_one, Nat.one_mul]
  by_cases hk : k < Nat.pow 2 53
  · have hlog : (units k).log2 - 52 = 0 := by
      rw [units_of_lt hk]
      rcases Nat.eq_zero_or_pos k with rfl | hpos
      · rfl
      · have := (Nat.log2_lt hpos.ne').mpr hk
        omega
    have hround := roundHalfEven_mul k Nat.one_pos
    rw [Nat.mul_one] at hround
    rw [hlog, units_of_lt hk, show Nat.pow 2 0 = 1 from rfl, hround, Nat.zero_mul, Nat.zero_add]
    exact Nat.min_eq_right h
  · obtain ⟨m, e, hunits, hm, hm', rank⟩ := units_eq (Nat.not_lt.mp hk)
    have hround : roundHalfEven (m * Nat.pow 2 e) (Nat.pow 2 e) = m :=
      roundHalfEven_mul m (Nat.two_pow_pos e)
    rw [hunits, log2_mul_two_pow hm hm', Nat.add_sub_cancel_left, hround, ← rank]
    exact Nat.min_eq_right h

end Binary64

namespace Decimal

open Binary64

/-! ## Only the number counts -/

theorem ten_pow_pos (n : Nat) : 0 < Nat.pow 10 n := Nat.pow_pos (by decide)

theorem ten_pow_add (a b : Nat) : Nat.pow 10 (a + b) = Nat.pow 10 a * Nat.pow 10 b :=
  Nat.pow_add 10 a b

/-- Powers of ten may stand on both sides. -/
theorem nearest_eq (m : Nat) {e : Int} {a b : Nat} (h : e = a - b) :
    nearest m e = Binary64.nearest (m * Nat.pow 10 a) (Nat.pow 10 b) := by
  cases e with
  | ofNat k =>
    have ha : a = k + b := by
      rw [Int.ofNat_eq_natCast] at h
      omega
    rw [nearest_of_nonneg, ha, ten_pow_add, ← Nat.mul_assoc,
      ← Binary64.nearest_mul (m * Nat.pow 10 k) 1 (ten_pow_pos b), Nat.one_mul]
  | negSucc k =>
    have hb : b = k + 1 + a := by omega
    rw [nearest_of_neg, hb, ten_pow_add (k + 1) a, Binary64.nearest_mul _ _ (ten_pow_pos a)]

/-- More zeros, and a lower power of ten for the last of them. -/
theorem nearest_mul (m j : Nat) (e : Int) : nearest (m * Nat.pow 10 j) (e - j) = nearest m e := by
  obtain ⟨a, b, h⟩ : ∃ a b : Nat, e = a - b := ⟨e.toNat, (-e).toNat, by omega⟩
  have h' : e - j = (a : Int) - (b + j : Nat) := by omega
  rw [nearest_eq _ h, nearest_eq _ h', ten_pow_add, Nat.mul_right_comm,
    Binary64.nearest_mul _ _ (ten_pow_pos j)]

/-! ## What is written reads back -/

/-- A unit is `5 ^ p * 10 ^ -p`. -/
theorem nearest_five_pow (u p : Nat) (hunit : unitsPerOne = Nat.pow 2 p) :
    nearest (u * Nat.pow 5 p) (-p) = nearestUnits u 1 := by
  have hexponent : (-p : Int) = (0 : Nat) - p := (Int.zero_sub _).symm
  have hten : Nat.pow 5 p * Nat.pow 2 p = Nat.pow 10 p := (Nat.mul_pow 5 2 p).symm
  have hscale := nearestUnits_mul u 1 (ten_pow_pos p)
  rw [Nat.one_mul] at hscale
  rw [nearest_eq _ hexponent, show Nat.pow 10 0 = 1 from rfl, Nat.mul_one, Binary64.nearest, hunit,
    Nat.mul_assoc, hten, hscale]

/-- All digits of a rank read back. -/
theorem toRank_exact {k : Nat} (h : k ≤ infiniteRank) : (exact k).toRank = k :=
  (nearest_five_pow (units k) 1074 rfl).trans (nearestUnits_units h)

/-- **The shortest decimal reads back.** -/
theorem toRank_shortest {k : Nat} (h : k ≤ infiniteRank) : (shortest k).toRank = k := by
  rcases toRank_shortest_or k with found | all
  · exact found
  · rw [all, toRank_exact h]

end Decimal

end Reckoner
