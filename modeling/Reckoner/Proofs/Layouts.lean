/-
  What is written is a numeral of the same number.

  A layout puts a point among the digits of a decimal, or zeros beside them, or an
  exponent behind them. Each of these is a numeral as it is read (`Numeral.Writes`),
  and its digits and its last place give the decimal again, but for zeros at either
  end, which `ofDigits_append_zeros` and `ofDigits_zeros_append` account for.

  Proved: `Layout.exists_numeral`, for every layout whose whole numbers end in
  nothing or in a point and zeros, and from it `Layout.exists_chars`: every finite
  double is written as a sign or none and a numeral of its rank.
-/
import Reckoner.Decimal.Layout
import Reckoner.Proofs.Negation
import Reckoner.Proofs.Numerals
import Reckoner.Proofs.Rounding

namespace Reckoner

open Binary64 Layout

/-! ## Digits and zeros -/

theorem ofDigits_toDigits (m : Nat) : ofDigits (Nat.toDigits 10 m) = m :=
  Nat.ofDigitChars_ten_toDigits

theorem ofDigits_append_zeros (ds : List Char) (j : Nat) :
    ofDigits (ds ++ zeros j) = ofDigits ds * Nat.pow 10 j := by
  rw [ofDigits, zeros, Nat.ofDigitChars_append, Nat.ofDigitChars_replicate_zero, Nat.mul_comm]
  rfl

theorem ofDigits_zeros_append (j : Nat) (ds : List Char) : ofDigits (zeros j ++ ds) = ofDigits ds := by
  rw [ofDigits, zeros, Nat.ofDigitChars_append, Nat.ofDigitChars_replicate_zero, Nat.mul_zero]
  rfl

theorem zeros_add (j k : Nat) : zeros j ++ zeros k = zeros (j + k) := List.replicate_append_replicate

theorem isDigit_zeros (j : Nat) : ∀ c ∈ zeros j, c.isDigit = true := by
  intro c hc
  rw [List.eq_of_mem_replicate hc]
  rfl

theorem isDigit_toDigits (m : Nat) : ∀ c ∈ Nat.toDigits 10 m, c.isDigit = true := fun _ hc =>
  Nat.isDigit_of_mem_toDigits (by decide) (by decide) hc

theorem isDigit_append {ds ds' : List Char} (h : ∀ c ∈ ds, c.isDigit = true)
    (h' : ∀ c ∈ ds', c.isDigit = true) : ∀ c ∈ ds ++ ds', c.isDigit = true := fun c hc =>
  (List.mem_append.mp hc).elim (h c) (h' c)

/-! ## Numerals of a decimal -/

/-- The numeral is of the same number as the decimal. -/
structure Numeral.Writes (n : Numeral) (x : Decimal) : Prop where
  form : n.WellFormed
  same : Decimal.nearest (ofDigits n.digits) n.lastPlace = x.toRank

theorem Numeral.Writes.value {n : Numeral} {x : Decimal} (h : n.Writes x) :
    n.value = ofRank false x.toRank := congrArg (ofRank false) h.same

section Digits

variable {ds : List Char} (digit : ∀ c ∈ ds, c.isDigit = true)
include digit

/-- Zeros around the point, and the digits. -/
theorem writes_below (p : Nat) :
    Numeral.Writes ⟨['0'], some (zeros p ++ ds), none⟩ ⟨ofDigits ds, -(p + ds.length : Nat)⟩ := by
  have hlength : (zeros p ++ ds).length = p + ds.length := by
    rw [List.length_append, zeros, List.length_replicate]
  have hdigits : ['0'] ++ (zeros p ++ ds) = zeros (1 + p) ++ ds := by
    rw [← List.append_assoc, ← zeros_add]
    rfl
  refine ⟨⟨isDigit_zeros 1, ?_, List.cons_ne_nil _ _, nofun⟩, ?_⟩
  · rintro _ ⟨⟩
    exact isDigit_append (isDigit_zeros p) digit
  · rw [Numeral.digits, Numeral.lastPlace]
    dsimp only [Option.getD_some]
    rw [hdigits, ofDigits_zeros_append, hlength, Int.zero_sub]
    rfl

variable (hne : ds ≠ [])
include hne

/-- Digits, zeros up to the point, and perhaps the point and more zeros. -/
theorem writes_whole (j : Nat) (places : Option Nat) :
    Numeral.Writes ⟨ds ++ zeros j, places.map zeros, none⟩ ⟨ofDigits ds, j⟩ := by
  have hfraction : (places.map zeros).getD [] = zeros (places.getD 0) := by cases places <;> rfl
  have hlength : ((places.map zeros).getD []).length = places.getD 0 := by
    rw [hfraction, zeros, List.length_replicate]
  refine ⟨⟨isDigit_append digit (isDigit_zeros j), fun fs hfs => ?_, ?_, nofun⟩, ?_⟩
  · obtain ⟨k, -, rfl⟩ := Option.map_eq_some_iff.mp hfs
    exact isDigit_zeros k
  · exact List.append_ne_nil_of_left_ne_nil (List.append_ne_nil_of_left_ne_nil hne _) _
  · have hplace : (0 : Int) - places.getD 0 = (j : Int) - (j + places.getD 0 : Nat) := by omega
    rw [Numeral.digits, Numeral.lastPlace]
    dsimp only
    rw [hlength, hfraction, List.append_assoc, zeros_add, ofDigits_append_zeros, hplace,
      Decimal.nearest_mul]
    rfl

/-- The point among the digits. -/
theorem writes_among (k : Nat) :
    Numeral.Writes ⟨ds.take k, some (ds.drop k), none⟩ ⟨ofDigits ds, -(ds.drop k).length⟩ := by
  have hdigits : ds.take k ++ ds.drop k = ds := List.take_append_drop k ds
  refine ⟨⟨fun c hc => digit c (List.mem_of_mem_take hc), ?_, ?_, nofun⟩, ?_⟩
  · rintro _ ⟨⟩ c hc
    exact digit c (List.mem_of_mem_drop hc)
  · show ds.take k ++ ds.drop k ≠ []
    rw [hdigits]
    exact hne
  · rw [Numeral.digits, Numeral.lastPlace]
    dsimp only [Option.getD_some]
    rw [hdigits, Int.zero_sub]
    rfl

/-- One digit, the others behind the point, and an exponent. -/
theorem writes_scientific (k : Nat) (p : Int) :
    Numeral.Writes ⟨ds.take 1, if ds.length ≤ 1 then none else some (ds.drop 1),
      some ⟨'e', some (if p < 0 then '-' else '+'), zeros k ++ Nat.toDigits 10 p.natAbs⟩⟩
      ⟨ofDigits ds, p - (ds.drop 1).length⟩ := by
  have hfraction : (if ds.length ≤ 1 then none else some (ds.drop 1)).getD [] = ds.drop 1 := by
    split
    · next h => exact (List.drop_eq_nil_of_le h).symm
    · rfl
  have hdigits : ds.take 1 ++ ds.drop 1 = ds := List.take_append_drop 1 ds
  refine ⟨⟨fun c hc => digit c (List.mem_of_mem_take hc), ?_, ?_, ?_⟩, ?_⟩
  · intro fs hfs c hc
    split at hfs <;> cases hfs
    exact digit c (List.mem_of_mem_drop hc)
  · rw [Numeral.digits]
    dsimp only
    rw [hfraction, hdigits]
    exact hne
  · rintro _ ⟨⟩
    refine ⟨.inl rfl, ?_, isDigit_append (isDigit_zeros k) (isDigit_toDigits _), ?_⟩
    · dsimp only
      split
      · exact .inr (.inr rfl)
      · exact .inr (.inl rfl)
    · exact List.append_ne_nil_of_right_ne_nil _ Nat.toDigits_ne_nil
  · have hexponent : Exponent.value
        ⟨'e', some (if p < 0 then '-' else '+'), zeros k ++ Nat.toDigits 10 p.natAbs⟩ = p := by
      rw [Exponent.value]
      dsimp only
      rw [ofDigits_zeros_append, ofDigits_toDigits]
      by_cases hp : p < 0
      · rw [if_pos hp, if_pos rfl]
        omega
      · rw [if_neg hp, if_neg (by decide)]
        omega
    rw [Numeral.digits, Numeral.lastPlace]
    dsimp only
    rw [hexponent, hfraction, hdigits]
    rfl

end Digits

/-! ## Layouts -/

namespace Layout

variable {l : Layout} {places : Option Nat}

theorem wholeEnd_short : short.wholeEnd = Numeral.pointed (none.map zeros) := rfl

theorem wholeEnd_full : full.wholeEnd = Numeral.pointed ((some 1).map zeros) := rfl

/-- In every layout a decimal is a numeral of the same number. -/
theorem exists_numeral (hend : l.wholeEnd = Numeral.pointed (places.map zeros)) (x : Decimal) :
    ∃ n : Numeral, n.Writes x ∧ n.text = l.magnitude x := by
  obtain ⟨m, e⟩ := x
  have digit := isDigit_toDigits m
  have hne : Nat.toDigits 10 m ≠ [] := Nat.toDigits_ne_nil
  have hdigits := ofDigits_toDigits m
  have hlength : 0 < (Nat.toDigits 10 m).length := List.length_pos_iff.mpr hne
  unfold magnitude
  dsimp only
  generalize Nat.toDigits 10 m = ds at *
  subst hdigits
  have hdrop (k : Nat) : (ds.drop k).length = ds.length - k := List.length_drop
  split
  · cases hp : e + ds.length - 1 with
    | ofNat p =>
      rw [Int.ofNat_eq_natCast] at hp
      rw [inPlace]
      split
      · next hle =>
        have he : e = (p + 1 - ds.length : Nat) := by omega
        rw [he, hend]
        exact ⟨_, writes_whole digit hne _ places, List.append_nil _⟩
      · next hgt =>
        have he : e = -((ds.drop (p + 1)).length : Int) := by rw [hdrop]; omega
        rw [he]
        exact ⟨_, writes_among digit hne _, List.append_nil _⟩
    | negSucc p =>
      have he : e = -((p + ds.length : Nat) : Int) := by omega
      rw [inPlace, he]
      exact ⟨_, writes_below digit p, List.append_nil _⟩
  · generalize hp : e + ds.length - 1 = p
    have he : e = p - (ds.drop 1).length := by rw [hdrop]; omega
    rw [he, scientific, exponent]
    refine ⟨_, writes_scientific digit hne (l.exponentDigits - (Nat.toDigits 10 p.natAbs).length) p, ?_⟩
    rw [Numeral.text, Numeral.mantissa]
    dsimp only
    split <;> rfl

/-- A finite double is written as a minus sign or none, and a numeral of its rank. -/
theorem exists_chars (hend : l.wholeEnd = Numeral.pointed (places.map zeros)) {v : Float}
    (finite : v.isFinite = true) :
    ∃ n : Numeral, n.WellFormed ∧ n.value = ofRank false (rank v) ∧
      l.chars v = (if negative v then ['-'] else []) ++ n.text := by
  have hrank := rank_lt_of_isFinite finite
  obtain ⟨n, writes, htext⟩ := exists_numeral hend (Decimal.shortest (rank v))
  refine ⟨n, writes.form, ?_, ?_⟩
  · rw [writes.value, Decimal.toRank_shortest (Nat.le_of_lt hrank)]
  · have defined : isUndefined v = false := decide_eq_false (Nat.not_lt.mpr (Nat.le_of_lt hrank))
    have bounded : isInfinite v = false := decide_eq_false (Nat.ne_of_lt hrank)
    rw [chars, defined, bounded, htext]
    rfl

end Layout

end Reckoner
