/-
  How a double is written.

  The digits are the fewest that read back (`Decimal.shortest`). A `Layout`
  says where the point goes: between two powers of ten a number stands with its
  point in place, outside them with one digit before the point and an exponent.

  `text` writes a number so that it is seen to be one (`7.0`, `1e+16`,
  `5e-324`); `amount` leaves a whole number without its point (`7`).
-/
import Reckoner.Decimal.Shortest

namespace Reckoner

open Binary64

/-- The decisions of a written form. -/
structure Layout where
  /-- The least power of ten of the first digit that is written in place. -/
  least : Int
  /-- The greatest power of ten of the first digit that is written in place. -/
  greatest : Int
  /-- What ends a whole number in place. -/
  wholeEnd : List Char
  /-- The fewest digits of an exponent. -/
  exponentDigits : Nat

namespace Layout

/-- Numbers stand in place from `0.0001` up to sixteen whole digits, a whole
    number ends in `.0`, and an exponent has a sign and two digits or more. -/
def full : Layout := ⟨-4, 15, ['.', '0'], 2⟩

/-- As `full`, but a whole number ends with its digits. -/
def short : Layout := { full with wholeEnd := [] }

def zeros (n : Nat) : List Char := List.replicate n '0'

/-- Digits with the first one at the power of ten `p`, point in place. -/
def inPlace (l : Layout) (ds : List Char) : Int → List Char
  | .ofNat p =>
    if ds.length ≤ p + 1 then ds ++ zeros (p + 1 - ds.length) ++ l.wholeEnd
    else ds.take (p + 1) ++ '.' :: ds.drop (p + 1)
  | .negSucc p => '0' :: '.' :: zeros p ++ ds

/-- An exponent with its mark and sign. -/
def exponent (l : Layout) (p : Int) : List Char :=
  let ds := Nat.toDigits 10 p.natAbs
  'e' :: (if p < 0 then '-' else '+') :: zeros (l.exponentDigits - ds.length) ++ ds

/-- Digits with one of them before the point, and an exponent. -/
def scientific (l : Layout) (ds : List Char) (p : Int) : List Char :=
  ds.take 1 ++ (if ds.length ≤ 1 then [] else '.' :: ds.drop 1) ++ l.exponent p

/-- A decimal in this layout. -/
def magnitude (l : Layout) (x : Decimal) : List Char :=
  let ds := Nat.toDigits 10 x.digits
  let p := x.exponent + ds.length - 1
  if l.least ≤ p ∧ p ≤ l.greatest then l.inPlace ds p else l.scientific ds p

/-- A double in this layout. -/
def chars (l : Layout) (x : Float) : List Char :=
  if isUndefined x then ['n', 'a', 'n']
  else (if negative x then ['-'] else []) ++
    if isInfinite x then ['i', 'n', 'f'] else l.magnitude (Decimal.shortest (rank x))

end Layout

/-- A number as it stands in a token or beside a name: `7.0`. -/
def text (x : Float) : String := String.ofList (Layout.full.chars x)

/-- A number as a result: `7`. -/
def amount (x : Float) : String := String.ofList (Layout.short.chars x)

end Reckoner
