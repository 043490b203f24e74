/-
  A tour of the calculator.

  Each sample is shown as it is typed, then as tokens, then with the value of
  each statement and the variables in the order they were first set. A fault is
  shown in place of what it prevents.
-/
import Reckoner.Calculator

namespace Reckoner.Demo

def samples : List String :=
  ["5", "-1", "1 + 1", "- - 5", "1 + -1", "4 + 6 * 3", "(4 + 6)", "(4+6) * 3", "7/6/2000",
    "10 % 3", "2e3 + 2e", "x = 1; y = 2; z = x + y", "var = (1 + 14 * (54*54))",
    "a = b = 10; a + b", "pi * 2", "pi = 3", "1 / 0", "(1 + 2"]

/-- A number filled up with blanks to two places, one of them before it at least. -/
def padded (n : Nat) : String :=
  let ds := ' ' :: Nat.toDigits 10 n
  String.ofList (List.replicate (2 - ds.length) ' ' ++ ds)

/-- One value to a line, numbered from one. -/
def listed (results : List Float) : String :=
  "\n".intercalate
    (results.zipIdx.map fun (value, i) => " " ++ padded (i + 1) ++ ": " ++ amount value)

/-- The variables in braces. -/
def shown (b : Bindings) : String :=
  "\x7b" ++ ", ".intercalate
    (b.entries.map fun (name, value) =>
      String.ofList (Text.quoted name.toList) ++ ": " ++ text value) ++ "\x7d"

/-- The lines on one sample. -/
def presentation (code : String) : List String :=
  let scope := Scope.ofConstants .builtin
  ["==========", "code: " ++ String.ofList (Text.quoted code.toList)] ++
    match scope.tokens code with
    | .error f => [f.message]
    | .ok tokens =>
      ("tokens: " ++ " ".intercalate (tokens.map Token.display)) ::
        match scope.evaluate code with
        | (.error f, _) => ["error: " ++ f.message]
        | (.ok results, scope) =>
          ["statement results:", listed results, "variables: " ++ shown scope.vars]

/-- The tour over all samples. -/
def tour : String :=
  String.join ((samples.flatMap presentation).map (· ++ "\n"))

end Reckoner.Demo
