/-
  The calculator on whole texts.

  A `Scope` and a text make the state a session starts from. `tokens`,
  `evaluate` and `converse` read a text to its end or its first `q`, within a
  nesting limit. `interact` is a session with the built-in constants, its exit
  status 0, or 2 if a fault ended it that no user can mend.
-/
import Reckoner.Script
import Reckoner.Conversation

namespace Reckoner

namespace Scope

/-- A session at the beginning of a text. -/
def start (s : Scope) (code : String) : State Script :=
  .ofSupply (.ofText s.constants code.toList) s.vars

/-- The tokens of a text before its end or a `q`, or the fault among them. -/
def tokens (s : Scope) (code : String) : Except Fault (List Token) :=
  match (Script.ofText s.constants code.toList).tokens with
  | (tokens, none) => .ok tokens
  | (_, some f) => .error f

/-- The values of the statements of a text or the fault among them, and the
    scope with what was assigned by then. -/
def evaluate (s : Scope) (code : String) (limit : Limit := nestingLimit) :
    Except Fault (List Float) × Scope :=
  let e := (s.start code).evaluate limit
  (match e.fault with
    | none => .ok e.results
    | some f => .error f,
    { s with vars := e.state.vars })

/-- All that a session over a text shows. -/
def converse (s : Scope) (code : String) (limit : Limit := nestingLimit) : Conversation Script :=
  (s.start code).converse limit

end Scope

/-! ## The program -/

/-- How a run of the program ends. -/
structure Exit where
  status : Nat
  output : String
  errors : String
  deriving DecidableEq, Repr

/-- A run over the whole input. -/
def interact (input : String) (limit : Limit := nestingLimit) : Exit :=
  let c := (Scope.ofConstants .builtin).converse input limit
  let errors := Transcript.errors c.events
  match c.fatal with
  | none => ⟨0, Transcript.output c.events, errors⟩
  | some _ => ⟨2, Transcript.output c.events, errors ++ "exception\n"⟩

end Reckoner
