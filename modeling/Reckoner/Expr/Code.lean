/-
  Trees written as text.

  `code` puts parentheses where the grammar needs them and nowhere else. All
  operators associate to the left, so a right operand needs them from its
  operator's own precedence down, a left one only below it. `spelled` puts every
  operation in parentheses and writes a remainder as a call.
-/
import Reckoner.Decimal.Layout
import Reckoner.Expr

namespace Reckoner.Expr

/-- Parentheses, if they are needed. -/
def enclosedIf (needed : Bool) (cs : List Char) : List Char :=
  if needed then '(' :: cs ++ [')'] else cs

/-- A tree in the calculator's language, with the fewest parentheses. -/
def code : Expr → List Char
  | number value => Layout.short.chars value
  | name x => x.toList
  | negate e => '-' :: enclosedIf (e.precedence < 3) e.code
  | binary op l r =>
    enclosedIf (l.precedence < op.precedence) l.code ++ [' ', op.symbol, ' '] ++
      enclosedIf (r.precedence ≤ op.precedence) r.code
  | assign x e => x.toList ++ [' ', '=', ' '] ++ e.code

/-- A tree with all its parentheses. -/
def spelled : Expr → List Char
  | number value => Layout.short.chars value
  | name x => x.toList
  | negate e => ['(', '-'] ++ e.spelled ++ [')']
  | binary .remainder l r =>
    "fmod(".toList ++ l.spelled ++ [',', ' '] ++ r.spelled ++ [')']
  | binary op l r =>
    ['('] ++ l.spelled ++ [' ', op.symbol, ' '] ++ r.spelled ++ [')']
  | assign x e => ['('] ++ x.toList ++ [' ', '=', ' '] ++ e.spelled ++ [')']

end Reckoner.Expr
