/-
  Numerals as they stand in a text.

  A numeral has digits, perhaps a point among or before them, and perhaps an
  exponent. `Reader.numeral` takes the longest one that the text to be read
  begins with: an exponent needs a digit, so that in `2e` or `2e+` the letter
  and what follows it are left where they were. Its value is the nearest double.
-/
import Reckoner.Decimal.Nearest
import Reckoner.Outcome
import Reckoner.Reader

namespace Reckoner

structure Exponent where
  mark : Char
  sign : Option Char
  digits : List Char
  deriving DecidableEq, Repr

/-- A numeral. The fraction is there if a point is. -/
structure Numeral where
  whole : List Char
  fraction : Option (List Char)
  exponent : Option Exponent
  deriving DecidableEq, Repr

/-- The number that decimal digits stand for. -/
def ofDigits (ds : List Char) : Nat := Nat.ofDigitChars 10 ds 0

namespace Exponent

def text (x : Exponent) : List Char := x.mark :: x.sign.toList ++ x.digits

def value (x : Exponent) : Int :=
  if x.sign = some '-' then -(ofDigits x.digits : Int) else ofDigits x.digits

end Exponent

namespace Numeral

/-- A fraction as it is written. -/
def pointed : Option (List Char) → List Char
  | none => []
  | some ds => '.' :: ds

/-- An exponent as it is written. -/
def raised : Option Exponent → List Char
  | none => []
  | some x => x.text

/-- The numeral up to its exponent. -/
def mantissa (n : Numeral) : List Char := n.whole ++ pointed n.fraction

def text (n : Numeral) : List Char := n.mantissa ++ raised n.exponent

/-- All digits before the exponent. -/
def digits (n : Numeral) : List Char := n.whole ++ n.fraction.getD []

/-- The power of ten of the last digit. -/
def lastPlace (n : Numeral) : Int :=
  (match n.exponent with
    | none => 0
    | some x => x.value) - (n.fraction.getD []).length

/-- The double nearest to the number written. -/
def value (n : Numeral) : Float :=
  Binary64.ofRank false (Decimal.nearest (ofDigits n.digits) n.lastPlace)

end Numeral

namespace Reader

/-- Digits, as many as there are. -/
def digits (r : Reader) : List Char × Reader := r.takeWhile Char.isDigit

/-- A point and the digits behind it. -/
def fraction (r : Reader) : Option (List Char) × Reader :=
  match r.read with
  | (some '.', r) =>
    let (ds, r) := r.digits
    (some ds, r)
  | (c, r) => (none, r.unread c)

/-- A plus or a minus. -/
def sign (r : Reader) : Option Char × Reader :=
  match r.read with
  | (some '+', r) => (some '+', r)
  | (some '-', r) => (some '-', r)
  | (c, r) => (none, r.unread c)

/-- An exponent, if a digit stands in it. -/
def exponent (r : Reader) : Option Exponent × Reader :=
  match r.read with
  | (none, r) => (none, r)
  | (some mark, r) =>
    if mark = 'e' ∨ mark = 'E' then
      let (sign, r) := r.sign
      let (digits, r) := r.digits
      if digits = [] then (none, (r.unread sign).unread mark)
      else (some { mark, sign, digits }, r)
    else (none, r.unread mark)

/-- The longest numeral that the text begins with. -/
def numeral (r : Reader) : Outcome Reader Numeral :=
  let (whole, r) := r.digits
  let (fraction, r) := r.fraction
  let bare : Numeral := { whole, fraction, exponent := none }
  if bare.digits = [] then .fault (.badNumber bare.mantissa) r
  else
    let (exponent, r) := r.exponent
    .ok { bare with exponent } r

/-! ## Nothing is lost -/

theorem digits_append (r : Reader) : r.digits.1 ++ r.digits.2.rest = r.rest := by
  simp [digits]

theorem read_append (r : Reader) : r.read.1.toList ++ r.read.2.rest = r.rest := by
  rw [read_fst, rest_read]
  cases r.rest <;> rfl

theorem sign_append (r : Reader) : r.sign.1.toList ++ r.sign.2.rest = r.rest := by
  have h := r.read_append
  unfold sign
  split <;> simp_all

theorem fraction_append (r : Reader) :
    Numeral.pointed r.fraction.1 ++ r.fraction.2.rest = r.rest := by
  have h := r.read_append
  unfold fraction
  split
  · next r' heq =>
    rw [heq] at h
    simp only [Numeral.pointed, List.cons_append, r'.digits_append]
    exact h
  · next heq => simpa [heq, Numeral.pointed] using h

theorem exponent_append (r : Reader) :
    Numeral.raised r.exponent.1 ++ r.exponent.2.rest = r.rest := by
  have h := r.read_append
  unfold exponent
  split
  · next heq => simpa [heq, Numeral.raised] using h
  · next mark r' heq =>
    rw [heq] at h
    have hs := r'.sign_append
    have hd := r'.sign.2.digits_append
    split
    · dsimp only
      split
      · next hnil =>
        rw [hnil, List.nil_append] at hd
        simpa [Numeral.raised, hd, hs] using h
      · simp only [Numeral.raised, Exponent.text, List.cons_append, List.append_assoc, hd, hs]
        exact h
    · simpa [Numeral.raised] using h

/-- What a numeral was read from is its text and what is left. Without a digit,
    the text up to there is gone. -/
theorem numeral_append (r : Reader) :
    match r.numeral with
    | .ok n r' => n.text ++ r'.rest = r.rest ∧ n.digits ≠ []
    | .fault f r' => ∃ literal, f = .badNumber literal ∧ literal ++ r'.rest = r.rest := by
  have hd := r.digits_append
  have hf := r.digits.2.fraction_append
  have he := r.digits.2.fraction.2.exponent_append
  unfold numeral
  dsimp only
  split
  · next h =>
    split at h
    · cases h
    · next hne =>
      injection h with h₁ h₂
      subst h₁ h₂
      refine ⟨?_, hne⟩
      simp only [Numeral.text, Numeral.mantissa, List.append_assoc]
      rw [he, hf, hd]
  · next h =>
    split at h
    · injection h with h₁ h₂
      subst h₁ h₂
      refine ⟨_, rfl, ?_⟩
      simp only [Numeral.mantissa, List.append_assoc]
      rw [hf, hd]
    · cases h

/-! ## What is no numeral -/

theorem head?_ne_point_of_fraction {r : Reader} (h : r.fraction.1 = none) :
    r.rest.head? ≠ some '.' := by
  rw [← r.read_fst]
  intro hp
  have hr : r.read = (some '.', r.read.2) := Prod.ext hp rfl
  unfold fraction at h
  rw [hr] at h
  cases h

/-- Where a digit or a point stands, a numeral is read or the point is taken. -/
theorem literal_ne_nil {r r' : Reader} {literal : List Char} {c : Char}
    (h : r.numeral = .fault (.badNumber literal) r') (hc : r.rest.head? = some c)
    (hb : c.isDigit = true ∨ c = '.') : literal ≠ [] := by
  unfold numeral at h
  dsimp only at h
  split at h
  · next hd =>
    injection h with h _
    injection h with h
    subst h
    simp only [Numeral.digits, List.append_eq_nil_iff] at hd
    intro hnil
    simp only [Numeral.mantissa, List.append_eq_nil_iff] at hnil
    have hrest : r.digits.2.rest = r.rest := by
      have := r.digits_append
      rwa [hnil.1, List.nil_append] at this
    rcases hb with hb | rfl
    · have : r.rest.takeWhile Char.isDigit = [] := by simpa [digits] using hnil.1
      cases hr : r.rest with
      | nil => simp [hr] at hc
      | cons d ds =>
        rw [hr, List.head?_cons, Option.some.injEq] at hc
        simp [hr, hc, hb] at this
    · refine head?_ne_point_of_fraction ?_ (hrest.symm ▸ hc)
      cases hf : r.digits.2.fraction.1 with
      | none => rfl
      | some ds => simp [hf, Numeral.pointed] at hnil
  · cases h

end Reader

end Reckoner
