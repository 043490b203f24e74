/-
  The shortest decimal that reads back as a given double.

  A `Decimal` is `digits * 10 ^ exponent`. `shortest k` looks for one that
  `nearest` takes to the rank `k`. It tries the grids of whole multiples of
  `10 ^ g`, from the coarsest `g` that can hold one downward, and on each grid
  the two points beside the value, the nearer one first and of two equally near
  the even one. The first hit has the fewest digits. Should seventeen digits
  not do, the value itself is a decimal and is given in full.
-/
import Reckoner.Decimal.Nearest

namespace Reckoner

open Binary64

/-- The number `digits * 10 ^ exponent`. -/
structure Decimal where
  digits : Nat
  exponent : Int
  deriving DecidableEq, Repr

namespace Decimal

/-- The rank of the double nearest to a decimal. -/
def toRank (x : Decimal) : Nat := nearest x.digits x.exponent

/-- The magnitude of rank `k` in steps of `10 ^ g`, as a quotient. -/
def inSteps (k : Nat) : Int → Nat × Nat
  | .ofNat n => (units k, unitsPerOne * Nat.pow 10 n)
  | .negSucc n => (units k * Nat.pow 10 (n + 1), unitsPerOne)

/-- The two points of the grid of `10 ^ g` beside rank `k`, the nearer first. -/
def neighbours (k : Nat) (g : Int) : List Decimal :=
  let (n, d) := inSteps k g
  let near := roundHalfEven n d
  let far := if near = n / d then near + 1 else near - 1
  [⟨near, g⟩, ⟨far, g⟩]

/-- The point of the grid of `10 ^ g` that reads back as rank `k`. -/
def onGrid? (k : Nat) (g : Int) : Option Decimal :=
  (neighbours k g).find? fun x => x.toRank = k

/-- A grid with at most one point up to the magnitude of rank `k`: `10 ^ coarsest`
    lies above it. The fraction is the logarithm of two. -/
def coarsest (k : Nat) : Int := ((units k).log2 - 1074 : Int) * 30103 / 100000 + 2

/-- All digits of rank `k`: a unit is `5 ^ 1074 * 10 ^ -1074`. -/
def exact (k : Nat) : Decimal := ⟨units k * Nat.pow 5 1074, -1074⟩

/-- The shortest decimal that reads back as rank `k`. -/
def shortest (k : Nat) : Decimal :=
  if k = 0 then ⟨0, 0⟩
  else ((List.range 19).findSome? fun (i : Nat) => onGrid? k (coarsest k - i)).getD (exact k)

/-! ## What is found reads back -/

theorem toRank_of_onGrid {k : Nat} {g : Int} {x : Decimal} (h : onGrid? k g = some x) :
    x.toRank = k := by
  simpa using List.find?_some h

/-- The shortest decimal reads back, or it is all digits of the value. -/
theorem toRank_shortest_or (k : Nat) : (shortest k).toRank = k ∨ shortest k = exact k := by
  unfold shortest
  split
  · next hk =>
    subst hk
    exact .inl rfl
  · cases h : (List.range 19).findSome? fun (i : Nat) => onGrid? k (coarsest k - i) with
    | none => exact .inr rfl
    | some x =>
      obtain ⟨i, -, hi⟩ := List.exists_of_findSome?_eq_some h
      exact .inl (toRank_of_onGrid hi)

end Decimal

end Reckoner
