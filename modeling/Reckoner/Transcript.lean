/-
  What a session shows.

  A session is a list of events: a prompt for each statement, then its result or
  a complaint, and after a complaint what was skipped. The channels are views of
  that list: `output` has the prompts and results, `errors` the complaints,
  `merged` both as they came, and `log` the recoveries.
-/
import Reckoner.Token

namespace Reckoner

inductive Event where
  /-- The session asks for a statement. -/
  | prompt
  | result (value : Float)
  /-- A fault that the session recovers from. -/
  | complaint (fault : Fault)
  /-- So many characters were dropped to find the end of the statement. -/
  | skipped (count : Nat)
  deriving DecidableEq

namespace Event

/-- What an event adds to the output. -/
def output : Event → String
  | .prompt => "> "
  | .result value => "= " ++ amount value ++ "\n"
  | .complaint _ | .skipped _ => ""

/-- What an event adds to the errors. -/
def errors : Event → String
  | .complaint fault => fault.message ++ "\n"
  | _ => ""

/-- What an event adds to a stream that takes output and errors. -/
def merged (e : Event) : String := e.output ++ e.errors

/-- What an event adds to the log. -/
def log : Event → List String
  | .complaint fault => ["deskcalc.session DEBUG Recovering from " ++ fault.category.label]
  | .skipped count =>
    ["deskcalc.tokenizer DEBUG Skipped " ++ toString count ++ " characters looking for ';'"]
  | _ => []

end Event

/-! ## Channels -/

namespace Transcript

def output (events : List Event) : String := String.join (events.map Event.output)

def errors (events : List Event) : String := String.join (events.map Event.errors)

def merged (events : List Event) : String := String.join (events.map Event.merged)

def log (events : List Event) : List String := events.flatMap Event.log

@[simp] theorem log_append (xs ys : List Event) : log (xs ++ ys) = log xs ++ log ys :=
  List.flatMap_append

end Transcript

end Reckoner
