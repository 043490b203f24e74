/-
  Expressions as trees, and their values.

  The grammar builds no tree; a tree says what a text means. `eval` walks it from
  the left and threads the variables: an assignment stores the value of its right
  side and has that value, and a fault leaves the variables as they were by then.
-/
import Reckoner.Outcome
import Reckoner.Scope
import Reckoner.Operator

namespace Reckoner

inductive Expr where
  | number (value : Float)
  | name (name : String)
  | negate (operand : Expr)
  | binary (op : Operator) (left right : Expr)
  | assign (name : String) (value : Expr)
  deriving DecidableEq

namespace Expr

/-- The value of a tree, and the variables after it. -/
def eval : Expr → Bindings → Outcome Bindings Float
  | number value, b => .ok value b
  | name x, b =>
    match b.lookup x with
    | some value => .ok value b
    | none => .fault (.unknownName x) b
  | negate e, b => (e.eval b).andThen fun value b => .ok (-value) b
  | binary op l r, b =>
    (l.eval b).andThen fun x b =>
    (r.eval b).andThen fun y b =>
      match op.apply x y with
      | .ok value => .ok value b
      | .error f => .fault f b
  | assign x e, b => (e.eval b).andThen fun value b => .ok value (b.assign x value)

/-- The tree with a number for each name that is a constant. -/
def resolve (constants : Bindings) : Expr → Expr
  | number value => number value
  | name x =>
    match constants.lookup x with
    | some value => number value
    | none => name x
  | negate e => negate (e.resolve constants)
  | binary op l r => binary op (l.resolve constants) (r.resolve constants)
  | assign x e => assign x (e.resolve constants)

/-- How tightly the top of a tree binds. What stands by itself binds tightest. -/
def precedence : Expr → Nat
  | number _ | name _ | negate _ => 3
  | binary op _ _ => op.precedence
  | assign _ _ => 0

end Expr

end Reckoner
