/-
  The five operators between two operands.

  Each has a symbol, a precedence and a meaning on doubles. Division and
  remainder first refuse a zero divisor, of either sign; the remainder then
  refuses an infinite dividend. All else is the arithmetic of doubles.
-/
import Reckoner.Fault
import Reckoner.Remainder

namespace Reckoner

inductive Operator where
  | add
  | subtract
  | multiply
  | divide
  | remainder
  deriving DecidableEq, Repr

namespace Operator

def all : List Operator := [.add, .subtract, .multiply, .divide, .remainder]

def symbol : Operator → Char
  | .add => '+'
  | .subtract => '-'
  | .multiply => '*'
  | .divide => '/'
  | .remainder => '%'

/-- How tightly an operator binds in print: a product before a sum. -/
def precedence : Operator → Nat
  | .add | .subtract => 1
  | .multiply | .divide | .remainder => 2

/-- A divisor, if it is one. -/
def divisor (y : Float) : Except Fault Float :=
  if y == 0 then .error .zeroDivisor else .ok y

/-- The value of an operation. -/
def apply (x : Float) (op : Operator) (y : Float) : Except Fault Float :=
  match op with
  | .add => .ok (x + y)
  | .subtract => .ok (x - y)
  | .multiply => .ok (x * y)
  | .divide => (divisor y).map (x / ·)
  | .remainder =>
    match divisor y with
    | .error fault => .error fault
    | .ok y =>
      match Reckoner.remainder x y with
      | none => .error .noRemainder
      | some z => .ok z

theorem divisor_zero {y : Float} (h : (y == 0) = true) : divisor y = .error .zeroDivisor := if_pos h

theorem divisor_nonzero {y : Float} (h : (y == 0) = false) : divisor y = .ok y := by
  rw [divisor, h, if_neg Bool.false_ne_true]

/-- An operation fails with a zero divisor, or as a remainder that there is not. -/
theorem apply_eq_error_iff {x y : Float} {op : Operator} {f : Fault} :
    op.apply x y = .error f ↔
      (op = .divide ∨ op = .remainder) ∧ (y == 0) = true ∧ f = .zeroDivisor ∨
        op = .remainder ∧ (y == 0) = false ∧ Reckoner.remainder x y = none ∧ f = .noRemainder := by
  cases hy : y == 0 with
  | true => cases op <;> simp [apply, divisor_zero hy, Except.map, eq_comm]
  | false =>
    cases hr : Reckoner.remainder x y <;> cases op <;>
      simp [apply, divisor_nonzero hy, Except.map, hr, eq_comm]

end Operator

end Reckoner
