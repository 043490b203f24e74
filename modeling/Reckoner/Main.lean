/-
  The command line.

  A session over standard input, statement by statement. More lines are read only
  when a step came to the end of those that are there, for then it might have
  gone on; the step is taken again from where it began.
-/
import Reckoner.Calculator

namespace Reckoner

namespace State

/-- A session with more text behind what it has. -/
def extend (s : State Script) (more : String) : State Script :=
  let reader := s.supply.reader
  { s with supply.reader := { reader with ahead := reader.ahead ++ more.toList } }

/-- Whether a step came to the end of the text. -/
def exhausted (s : State Script) : Bool := s.supply.reader.ahead.isEmpty

end State

/-- Takes a step, with more text as long as it comes to the end of what is there. -/
partial def step {α : Type} (input : IO.FS.Stream) (take : State Script → α)
    (after : α → State Script) (s : State Script) : IO α := do
  let outcome := take s
  if (after outcome).exhausted then
    let line ← input.getLine
    if line.isEmpty then return outcome
    else step input take after (s.extend line)
  else return outcome

partial def talk (input output errors : IO.FS.Stream) (s : State Script) : IO UInt32 := do
  let say (e : Event) : IO Unit := do
    output.putStr e.output
    errors.putStr e.errors
  say .prompt
  output.flush
  match ← step input (State.statement nestingLimit) Outcome.state s with
  | .ok none _ => return 0
  | .ok (some value) s =>
    say (.result value)
    talk input output errors s
  | .fault f s =>
    if f.recoverable then
      say (.complaint f)
      let (_, s) ← step input (State.giveUp .print) Prod.snd s
      talk input output errors s
    else
      errors.putStr "exception\n"
      return 2

end Reckoner

open Reckoner in
def main : IO UInt32 := do
  let scope := Scope.ofConstants .builtin
  talk (← IO.getStdin) (← IO.getStdout) (← IO.getStderr) (scope.start "")
