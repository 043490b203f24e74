/-
  Tokens: the words of the calculator's language.

  A token has a kind, a number and a name; a kind that needs no number has
  zero, one that needs no name the empty name. Ten kinds are written as one
  character (`Kind.symbol?`). The letter `q` is one of them, so no name begins
  with it.
-/
import Reckoner.Operator
import Reckoner.Decimal.Layout

namespace Reckoner

/-! ## Kinds -/

inductive Kind where
  | opening
  | closing
  | print
  | quit
  | operator (op : Operator)
  | assign
  | number
  | name
  deriving DecidableEq, Repr

namespace Kind

def all : List Kind :=
  [.opening, .closing, .print, .quit] ++ Operator.all.map .operator ++ [.assign, .number, .name]

/-- The character a kind is written as. -/
def symbol? : Kind → Option Char
  | .opening => some '('
  | .closing => some ')'
  | .print => some ';'
  | .quit => some 'q'
  | .operator op => some op.symbol
  | .assign => some '='
  | .number | .name => none

/-- The kind written as a character. -/
def ofSymbol? (c : Char) : Option Kind := all.find? (·.symbol? = some c)

/-- The word for a kind. -/
def label : Kind → String
  | .opening => "LPAREN"
  | .closing => "RPAREN"
  | .print => "PRINT"
  | .quit => "QUIT"
  | .operator .add => "PLUS"
  | .operator .subtract => "MINUS"
  | .operator .multiply => "STAR"
  | .operator .divide => "SLASH"
  | .operator .remainder => "PERCENT"
  | .assign => "ASSIGN"
  | .number => "NUMBER"
  | .name => "NAME"

def ofLabel? (label : String) : Option Kind := all.find? (·.label = label)

theorem mem_all (k : Kind) : k ∈ all := by
  cases k with
  | operator op => cases op <;> decide
  | _ => decide

theorem ofLabel?_label (k : Kind) : ofLabel? k.label = some k := by
  cases k with
  | operator op => cases op <;> decide
  | _ => decide

theorem ofSymbol?_symbol {k : Kind} {c : Char} (h : k.symbol? = some c) :
    ofSymbol? c = some k := by
  cases k with
  | operator op => cases op <;> simp only [symbol?, Option.some.injEq] at h <;> subst h <;> decide
  | number => simp [symbol?] at h
  | name => simp [symbol?] at h
  | _ => simp only [symbol?, Option.some.injEq] at h; subst h; decide

theorem symbol?_of_ofSymbol? {k : Kind} {c : Char} (h : ofSymbol? c = some k) :
    k.symbol? = some c := by
  simpa using List.find?_some h

end Kind

/-! ## Tokens -/

structure Token where
  kind : Kind
  value : Float := 0
  name : String := ""
  deriving DecidableEq

namespace Token

/-- A token that is its kind alone. -/
def mark (kind : Kind) : Token := { kind }

def number (value : Float) : Token := { kind := .number, value }

def identifier (name : String) : Token := { kind := .name, name }

/-- A token as a reader would know it: its kind, with the number or the name if
    the kind has one. -/
def display (t : Token) : String :=
  "<" ++ t.kind.label ++ ">" ++
    match t.kind with
    | .number => text t.value
    | .name => t.name
    | _ => ""

/-- A token with all its parts. -/
def parts (t : Token) : String :=
  "Token(kind=" ++ t.kind.label ++ ", value=" ++ text t.value ++
    ", name=" ++ String.ofList (Text.quoted t.name.toList) ++ ")"

/-- Two tokens are alike if all parts compare equal. Zeros of either sign do,
    and what is no number does not. -/
def alike (s t : Token) : Bool := s.kind = t.kind && s.value == t.value && s.name = t.name

/-- Which of some tokens equal which. Each equals itself. -/
def equalities (ts : List Token) : List (List Bool) :=
  ts.zipIdx.map fun (s, i) => ts.zipIdx.map fun (t, j) => i = j || s.alike t

end Token

end Reckoner
