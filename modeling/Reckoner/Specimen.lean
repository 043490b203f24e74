/-
  Random expressions to try the calculator on.

  `grow` draws a tree: a leaf, a negation or an operation, with leaves alone at
  depth zero. It takes its luck from `Draws`, chances and choices in the order
  they are asked for. `generate` draws the same but builds no tree: it prints the
  parts as they come, and knows of each only how tightly its top binds. `value` is
  what the calculator makes of a specimen's code after the variables of the leaves
  are set.
-/
import Reckoner.Calculator
import Reckoner.Expr.Code

namespace Reckoner

/-- Chances from zero to one, and choices of an item by its place. -/
structure Draws where
  chances : List Float
  choices : List Nat

namespace Draws

/-- Whether the next chance falls below a limit. -/
def chance (below : Float) (d : Draws) : Bool × Draws :=
  match d.chances with
  | [] => (false, d)
  | c :: chances => (decide (c < below), { d with chances })

/-- The next choice among some items, the default if there is none. -/
def choose {α : Type} (items : List α) (default : α) (d : Draws) : α × Draws :=
  match d.choices with
  | [] => (default, d)
  | i :: choices => (items.getD i default, { d with choices })

end Draws

namespace Specimen

/-- What stands at the ends of a tree. -/
def leaves : List Expr :=
  [.number 0, .number 1, .number 2, .number 7, .number 10, .number 0.5, .number 2.25, .name "pi",
    .name "e", .name "a", .name "b", .name "c"]

/-- The variables among the leaves. -/
def vars : Bindings := .ofList [("a", 3), ("b", -1.5), ("c", 0)]

def leaf (d : Draws) : Expr × Draws := d.choose leaves (.number 0)

/-- Draws a tree of at most a given depth: a leaf with a chance of one in four,
    and of what is left a negation with a chance of three in twenty. -/
def grow : Nat → Draws → Expr × Draws
  | 0, d => leaf d
  | depth + 1, d =>
    let (ends, d) := d.chance 0.25
    if ends then leaf d
    else
      let (negates, d) := d.chance 0.15
      if negates then
        let (e, d) := grow depth d
        (.negate e, d)
      else
        let (op, d) := d.choose Operator.all .add
        let (l, d) := grow depth d
        let (r, d) := grow depth d
        (.binary op l r, d)

/-! ## In print -/

/-- A specimen in print: the calculator's code, the same with all its parentheses, and
    how tightly the top binds. -/
structure Printed where
  code : List Char
  spelled : List Char
  precedence : Nat
  deriving DecidableEq

namespace Printed

def leaf (text : String) : Printed := ⟨text.toList, text.toList, 3⟩

def negate (e : Printed) : Printed where
  code := '-' :: Expr.enclosedIf (e.precedence < 3) e.code
  spelled := ['(', '-'] ++ e.spelled ++ [')']
  precedence := 3

def binary (op : Operator) (l r : Printed) : Printed where
  code := Expr.enclosedIf (l.precedence < op.precedence) l.code ++ [' ', op.symbol, ' '] ++
    Expr.enclosedIf (r.precedence ≤ op.precedence) r.code
  spelled :=
    if op = .remainder then "fmod(".toList ++ l.spelled ++ [',', ' '] ++ r.spelled ++ [')']
    else ['('] ++ l.spelled ++ [' ', op.symbol, ' '] ++ r.spelled ++ [')']
  precedence := op.precedence

end Printed

/-- The leaves as they are typed. -/
def leafTexts : List String :=
  ["0", "1", "2", "7", "10", "0.5", "2.25", "pi", "e"] ++ vars.entries.map Prod.fst

def printedLeaf (d : Draws) : Printed × Draws :=
  let (text, d) := d.choose leafTexts "0"
  (.leaf text, d)

/-- Prints what the draws describe, of at most a given depth. -/
def generate : Nat → Draws → Printed × Draws
  | 0, d => printedLeaf d
  | depth + 1, d =>
    let (ends, d) := d.chance 0.25
    if ends then printedLeaf d
    else
      let (negates, d) := d.chance 0.15
      if negates then
        let (e, d) := generate depth d
        (.negate e, d)
      else
        let (op, d) := d.choose Operator.all .add
        let (l, d) := generate depth d
        let (r, d) := generate depth d
        (.binary op l r, d)

/-! ## Values -/

/-- Statements that set the variables. -/
def opening : String :=
  String.join (vars.entries.map fun (name, value) => name ++ " = " ++ text value ++ "; ")

/-- The value of some code where the variables are set. -/
def value (code : String) (limit : Limit := nestingLimit) : Except Fault Float :=
  let scope := Scope.ofConstants .builtin
  (scope.evaluate (opening ++ code) limit).1.map fun results => results.getLastD 0

end Specimen

end Reckoner
