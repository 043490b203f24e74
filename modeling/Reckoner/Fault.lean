/-
  What can go wrong, and how it is told.

  A `Fault` is the cause. Its `Report` is what a user sees of it: a category, a
  message and, for an unknown name, the name. The calculator recovers from the
  faults a user makes; the other three end it (`recoverable`). The text of
  every message is printable but for the name in an unknown name
  (`Fault.message`).
-/
import Reckoner.Text.Quoted

namespace Reckoner

/-! ## Causes -/

inductive Fault where
  /-- A character that begins no token. -/
  | badToken (c : Char)
  /-- A numeral without a digit: a lone point, or nothing. -/
  | badNumber (literal : List Char)
  /-- Something else stands where an operand must begin. -/
  | operandExpected
  /-- A parenthesis is not closed. -/
  | closingExpected
  /-- What stands before an assignment is not a name. -/
  | notAssignable
  /-- The nesting limit is reached. -/
  | tooDeep
  | zeroDivisor
  | unknownName (name : String)
  /-- A second token was put back. -/
  | slotTaken
  /-- An infinite dividend leaves no remainder. -/
  | noRemainder
  /-- A constant was to be set. -/
  | constantsFixed
  deriving DecidableEq, Repr

/-! ## Reports -/

inductive Category where
  | general
  | badToken
  | grammar
  | zeroDivisor
  | unknownName
  | slotTaken
  | domain
  | constantsFixed
  deriving DecidableEq, Repr

namespace Category

/-- The word for a category in logs and reports. -/
def label : Category → String
  | .general => "CalculatorError"
  | .badToken => "BadTokenError"
  | .grammar => "ExpressionSyntaxError"
  | .zeroDivisor => "DivideByZeroError"
  | .unknownName => "UndefinedSymbolError"
  | .slotTaken => "BufferFullError"
  | .domain => "ValueError"
  | .constantsFixed => "TypeError"

def all : List Category :=
  [.general, .badToken, .grammar, .zeroDivisor, .unknownName, .slotTaken, .domain, .constantsFixed]

def ofLabel? (label : String) : Option Category := all.find? (·.label = label)

/-- Whether a session goes on with the next statement. -/
def recoverable : Category → Bool
  | .slotTaken | .domain | .constantsFixed => false
  | _ => true

theorem ofLabel?_label (c : Category) : ofLabel? c.label = some c := by
  cases c <;> decide

end Category

/-- What is told of a fault. -/
structure Report where
  category : Category
  message : String
  name : Option String
  deriving DecidableEq, Repr

namespace Report

def zeroDivisor : Report := ⟨.zeroDivisor, "divide by zero", none⟩

def unknownName (name : String) : Report := ⟨.unknownName, "undefined symbol: " ++ name, some name⟩

def slotTaken : Report := ⟨.slotTaken, "putback() into a full buffer", none⟩

/-- The report of a category from what it takes: a zero divisor takes nothing,
    an unknown name its name, every other category a message. -/
def make? : Category → List String → Option Report
  | .zeroDivisor, [] => some zeroDivisor
  | .zeroDivisor, _ => none
  | .unknownName, [name] => some (unknownName name)
  | .slotTaken, [] => some slotTaken
  | category, [message] => some ⟨category, message, none⟩
  | _, _ => none

def recoverable (r : Report) : Bool := r.category.recoverable

/-- A report with its category, message in quotes. -/
def display (r : Report) : String :=
  r.category.label ++ "(errmsg=" ++ String.ofList (Text.quoted r.message.toList) ++ ")"

end Report

namespace Fault

def report : Fault → Report
  | .badToken c => ⟨.badToken, "Bad token " ++ String.ofList (Text.quoted [c]), none⟩
  | .badNumber literal => ⟨.badToken, "Bad number " ++ String.ofList (Text.quoted literal), none⟩
  | .operandExpected => ⟨.grammar, "primary expected", none⟩
  | .closingExpected => ⟨.grammar, "')' expected", none⟩
  | .notAssignable => ⟨.grammar, "invalid assignment target", none⟩
  | .tooDeep => ⟨.grammar, "expression too deeply nested", none⟩
  | .zeroDivisor => .zeroDivisor
  | .unknownName name => .unknownName name
  | .slotTaken => .slotTaken
  | .noRemainder => ⟨.domain, "math domain error", none⟩
  | .constantsFixed =>
    ⟨.constantsFixed, "'mappingproxy' object does not support item assignment", none⟩

def category (f : Fault) : Category := f.report.category

def message (f : Fault) : String := f.report.message

/-- Whether a session goes on after the fault. -/
def recoverable (f : Fault) : Bool := f.report.recoverable

end Fault

end Reckoner
