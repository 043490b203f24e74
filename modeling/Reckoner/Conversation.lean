/-
  A session, one statement after the other.

  `evaluate` collects the values of statements up to the first fault.
  `converse` talks: it prompts, shows each result, and after a fault that a
  user made it complains, gives the statement up and goes on. Any other fault
  ends it. Both end, since each turn leaves a smaller state.
-/
import Reckoner.Statement
import Reckoner.Transcript

namespace Reckoner

/-- How deep statements may nest where nothing else is said. -/
def nestingLimit : Limit := ⟨988, true⟩

/-- The values of statements, what ended them if not `quit`, and the state then. -/
structure Evaluation (σ : Type) where
  results : List Float
  fault : Option Fault
  state : State σ
  deriving DecidableEq

/-- What a session showed, what ended it if not `quit`, and the state then. -/
structure Conversation (σ : Type) where
  events : List Event
  fatal : Option Fault
  state : State σ
  deriving DecidableEq

namespace State

variable {σ : Type} [Supply σ]

/-- The values of all statements, up to the first fault. -/
def evaluate (limit : Limit) (s : State σ) : Evaluation σ :=
  match _hstatement : s.statement limit with
  | .fault f s => ⟨[], some f, s⟩
  | .ok none s => ⟨[], none, s⟩
  | .ok (some value) s₁ =>
    let later := evaluate limit s₁
    { later with results := value :: later.results }
termination_by s.size
decreasing_by exact size_statement _hstatement

/-- Answers all statements, and recovers where a user made the fault. -/
def converse (limit : Limit) (s : State σ) : Conversation σ :=
  match _hstatement : s.statement limit with
  | .ok none s => ⟨[.prompt], none, s⟩
  | .ok (some value) s₁ =>
    let later := converse limit s₁
    { later with events := .prompt :: .result value :: later.events }
  | .fault f s₁ =>
    if f.recoverable then
      match _hgiveUp : s₁.giveUp .print with
      | (skipped, s₂) =>
        let later := converse limit s₂
        { later with
          events := .prompt :: .complaint f :: skipped.toList.map .skipped ++ later.events }
    else ⟨[.prompt], some f, s₁⟩
termination_by s.size
decreasing_by
  · exact size_statement _hstatement
  · simpa [_hgiveUp] using size_giveUp_of_statement .print _hstatement

end State

end Reckoner
