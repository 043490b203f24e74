/-
  Negation turns the sign and nothing else.

  A double that is a number is a sign, an exponent and a mantissa, packed into
  64 bits. Negation unpacks it, turns the sign and packs it again, and that is
  the same as turning the sign bit of the pattern (`negated_eq`). So two
  negations cancel bit for bit (`neg_neg`). What is no number has one pattern,
  which negation keeps. This is what lets a run of minus signs be read as one
  sign or none.

  The exponent and the mantissa side by side are the rank, so negation keeps the
  rank of a finite double (`neg_eq_ofRank`), and a double is its rank with a sign
  (`ofRank_rank`).
-/
import Mathlib
import Reckoner.Binary64

namespace Reckoner.Binary64

open Float.Model Float.Model.UnpackedFloat

/-- The bits of a negation. -/
def negated (b : BitVec 64) : BitVec 64 :=
  UnpackedFloat.pack Format.binary64 (UnpackedFloat.unpack Format.binary64 b).neg

/-- The same parts with the sign turned. -/
def turned (b : BitVec 64) : BitVec 64 :=
  packComponents Format.binary64 (-Sign.ofBitVec (@unpackSign Format.binary64 b))
    (@unpackExponent Format.binary64 b) (@unpackMantissa Format.binary64 b)

theorem sign_neg_neg (s : Sign) : - -s = s := by cases s <;> rfl

theorem sign_turned (b : BitVec 64) :
    Sign.ofBitVec (@unpackSign Format.binary64 (turned b)) =
      -Sign.ofBitVec (@unpackSign Format.binary64 b) := by
  unfold turned
  rw [unpackSign_packComponents, Sign.ofBitVec_toBitVec]

theorem unpackExponent_turned (b : BitVec 64) :
    @unpackExponent Format.binary64 (turned b) = @unpackExponent Format.binary64 b :=
  unpackExponent_packComponents

theorem unpackMantissa_turned (b : BitVec 64) :
    @unpackMantissa Format.binary64 (turned b) = @unpackMantissa Format.binary64 b :=
  unpackMantissa_packComponents

theorem turned_turned (b : BitVec 64) : turned (turned b) = b := by
  have parts := @packComponents_unpackSign_unpackExponent_unpackMantissa Format.binary64 b
  rw [turned, sign_turned, unpackExponent_turned, unpackMantissa_turned, sign_neg_neg]
  exact parts

/-- Unpacking tells the kind of a double from its exponent and its mantissa
    alone, so the turned sign comes out as the sign of the same number. -/
theorem unpack_turned (b : BitVec 64) :
    UnpackedFloat.unpack Format.binary64 (turned b) =
      (UnpackedFloat.unpack Format.binary64 b).neg := by
  unfold UnpackedFloat.unpack
  simp only [sign_turned, unpackExponent_turned, unpackMantissa_turned]
  split
  · split <;> rfl
  · split
    · split <;> rfl
    · rfl

/-- Where the pattern is a number, negation turns the sign bit. -/
theorem negated_eq {b : BitVec 64} (h : @isNaNBits Format.binary64 b = false) :
    negated b = turned b := by
  have valid : Format.binary64.Valid (turned b) := by
    refine ⟨fun he hm => ?_⟩
    rw [unpackExponent_turned] at he
    rw [unpackMantissa_turned] at hm
    have hnan : @isNaNBits Format.binary64 b = true := by
      unfold isNaNBits
      exact decide_eq_true ⟨he, hm⟩
    rw [hnan] at h
    cases h
  unfold negated
  rw [← unpack_turned]
  exact pack_unpack_of_valid valid

theorem negated_packedNaN : negated (packedNaN Format.binary64) = packedNaN Format.binary64 := by
  decide

/-- Two negations give the bits back. -/
theorem negated_negated {b : BitVec 64} (valid : Format.binary64.Valid b) :
    negated (negated b) = b := by
  cases h : @isNaNBits Format.binary64 b with
  | true =>
    unfold isNaNBits at h
    obtain ⟨he, hm⟩ := of_decide_eq_true h
    rw [valid.eq_packedNaN he hm, negated_packedNaN, negated_packedNaN]
  | false =>
    have hturned : @isNaNBits Format.binary64 (turned b) = false := by
      unfold isNaNBits at h ⊢
      rw [unpackExponent_turned, unpackMantissa_turned]
      exact h
    rw [negated_eq h, negated_eq hturned, turned_turned]

/-- Two negations cancel, bit for bit. -/
theorem neg_neg (x : Float) : - -x = x := by
  obtain ⟨⟨bits, valid⟩⟩ := x
  have same : ∀ (b : BitVec 64) (hb : Format.binary64.Valid b), b = bits.toBitVec →
      Float.ofModel ⟨⟨b⟩, hb⟩ = Float.ofModel ⟨bits, valid⟩ := by
    rintro b hb rfl
    rfl
  exact same _ _ (negated_negated valid)

/-! ## The rank is all but the sign -/

theorem toNat_packComponents (s : Sign) (e : BitVec 11) (m : BitVec 52) :
    (packComponents Format.binary64 s e m).toNat =
      s.toBitVec.toNat * Nat.pow 2 63 + (e.toNat * Nat.pow 2 52 + m.toNat) := by
  have hpack : packComponents Format.binary64 s e m = s.toBitVec ++ e ++ m := rfl
  rw [hpack, BitVec.toNat_append, BitVec.toNat_append, ← Nat.shiftLeft_add_eq_or_of_lt m.isLt,
    ← Nat.shiftLeft_add_eq_or_of_lt e.isLt, Nat.shiftLeft_eq, Nat.shiftLeft_eq]
  simp only [Nat.pow_eq]
  omega

/-- The exponent and the mantissa as one number. -/
def unsigned (b : BitVec 64) : Nat :=
  (@unpackExponent Format.binary64 b).toNat * Nat.pow 2 52 + (@unpackMantissa Format.binary64 b).toNat

theorem unsigned_turned (b : BitVec 64) : unsigned (turned b) = unsigned b := by
  rw [unsigned, unsigned, unpackExponent_turned, unpackMantissa_turned]

theorem unsigned_lt (b : BitVec 64) : unsigned b < Nat.pow 2 63 := by
  have he : (@unpackExponent Format.binary64 b).toNat < 2 ^ 11 := BitVec.isLt _
  have hm : (@unpackMantissa Format.binary64 b).toNat < 2 ^ 52 := BitVec.isLt _
  unfold unsigned
  simp only [Nat.pow_eq]
  omega

theorem toNat_eq (b : BitVec 64) :
    b.toNat = (Sign.ofBitVec (@unpackSign Format.binary64 b)).toBitVec.toNat * Nat.pow 2 63 +
      unsigned b := by
  have parts := @packComponents_unpackSign_unpackExponent_unpackMantissa Format.binary64 b
  exact (congrArg BitVec.toNat parts.symm).trans (toNat_packComponents _ _ _)

theorem toNat_turned (b : BitVec 64) :
    (turned b).toNat = (-Sign.ofBitVec (@unpackSign Format.binary64 b)).toBitVec.toNat * Nat.pow 2 63 +
      unsigned b := toNat_packComponents _ _ _

theorem sign_toNat_neg (s : Sign) : s.toBitVec.toNat + (-s).toBitVec.toNat = 1 := by
  cases s <;> rfl

theorem rank_eq_unsigned (x : Float) : rank x = unsigned x.toBits.toBitVec := by
  have hx : x.toBits.toNat = _ := toNat_eq x.toBits.toBitVec
  rw [rank, hx, Nat.mul_add_mod_self_right, Nat.mod_eq_of_lt (unsigned_lt _)]

/-- A double is its rank with its sign. -/
theorem ofRank_rank (x : Float) : ofRank (negative x) (rank x) = x := by
  have hx : x.toBits.toNat < 2 ^ 64 := x.toBits.toNat_lt
  have hsum : (rank x + if negative x = true then Nat.pow 2 63 else 0) = x.toBits.toNat := by
    unfold rank negative
    simp only [Nat.pow_eq, decide_eq_true_eq]
    split <;> omega
  rw [ofRank, hsum, UInt64.ofNat_toNat, Float.ofBits_toBits]

/-! ## Finite doubles -/

section Finite

variable {x : Float}

/-- The greatest exponent is not that of a finite double. -/
theorem exponent_of_isFinite (finite : x.isFinite = true) :
    @unpackExponent Format.binary64 x.toBits.toBitVec ≠ -1#11 := by
  intro he
  have hx : (UnpackedFloat.unpack Format.binary64 x.toBits.toBitVec).isFinite = true := finite
  unfold UnpackedFloat.unpack at hx
  dsimp only at hx
  rw [if_pos he] at hx
  split at hx <;> cases hx

theorem rank_lt_of_isFinite (finite : x.isFinite = true) : rank x < infiniteRank := by
  have he : (@unpackExponent Format.binary64 x.toBits.toBitVec).toNat ≠ 2047 := fun h =>
    exponent_of_isFinite finite (BitVec.eq_of_toNat_eq h)
  have hlt : (@unpackExponent Format.binary64 x.toBits.toBitVec).toNat < 2 ^ 11 := BitVec.isLt _
  have hm : (@unpackMantissa Format.binary64 x.toBits.toBitVec).toNat < 2 ^ 52 := BitVec.isLt _
  rw [rank_eq_unsigned, unsigned, infiniteRank]
  simp only [Nat.pow_eq]
  omega

theorem toBits_neg (finite : x.isFinite = true) :
    (-x).toBits.toBitVec = turned x.toBits.toBitVec := by
  refine negated_eq ?_
  unfold isNaNBits
  exact decide_eq_false fun h => exponent_of_isFinite finite h.1

theorem negative_neg (finite : x.isFinite = true) : negative (-x) = !negative x := by
  have hneg : (-x).toBits.toNat = _ := (congrArg BitVec.toNat (toBits_neg finite)).trans (toNat_turned _)
  have hx : x.toBits.toNat = _ := toNat_eq x.toBits.toBitVec
  have hs := sign_toNat_neg (Sign.ofBitVec (@unpackSign Format.binary64 x.toBits.toBitVec))
  have hlt := unsigned_lt x.toBits.toBitVec
  rw [negative, negative, hneg, hx, ← decide_not, decide_eq_decide]
  simp only [Nat.pow_eq] at hlt ⊢
  omega

/-- Negation of a finite double keeps its rank and turns its sign. -/
theorem neg_eq_ofRank (finite : x.isFinite = true) : -x = ofRank (!negative x) (rank x) := by
  have hrank : rank (-x) = rank x := by
    rw [rank_eq_unsigned, rank_eq_unsigned, toBits_neg finite, unsigned_turned]
  rw [← ofRank_rank (-x), negative_neg finite, hrank]

end Finite

end Reckoner.Binary64
