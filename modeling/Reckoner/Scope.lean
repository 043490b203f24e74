/-
  Names and their values.

  `Bindings` keep the order in which names came first; a name that is bound
  again keeps its place. A `Scope` has constants, which are there when a
  token is read and never change, and variables, which are there when a value
  is asked for.
-/
import Reckoner.Fault

namespace Reckoner

/-! ## Bindings -/

/-- Names with a value each, in the order they were first bound. -/
structure Bindings where
  entries : List (String × Float)
  deriving DecidableEq

namespace Bindings

def empty : Bindings := ⟨[]⟩

/-- The value of a name in a list of entries. -/
def lookupIn (name : String) : List (String × Float) → Option Float
  | [] => none
  | (key, value) :: entries => if key = name then some value else lookupIn name entries

def lookup (b : Bindings) (name : String) : Option Float := lookupIn name b.entries

/-- Binds a name in a list of entries, in its place or at the end. -/
def assignIn (name : String) (value : Float) : List (String × Float) → List (String × Float)
  | [] => [(name, value)]
  | (key, old) :: entries =>
    if key = name then (key, value) :: entries else (key, old) :: assignIn name value entries

def assign (b : Bindings) (name : String) (value : Float) : Bindings :=
  ⟨assignIn name value b.entries⟩

/-- Binds one pair after the other. -/
def ofList (pairs : List (String × Float)) : Bindings :=
  pairs.foldl (fun b (name, value) => b.assign name value) empty

/-- The constants of a calculator that is given no others. -/
def builtin : Bindings := ofList [("pi", 3.14159265358979323846), ("e", 2.71828182845904523536)]

/-- The entries in the order of their names, character by character. -/
def sorted (b : Bindings) : List (String × Float) :=
  b.entries.mergeSort fun (x, _) (y, _) => x ≤ y

@[simp] theorem lookup_empty (name : String) : empty.lookup name = none := rfl

theorem lookup_assign (b : Bindings) (name key : String) (value : Float) :
    (b.assign name value).lookup key = if key = name then some value else b.lookup key := by
  obtain ⟨entries⟩ := b
  simp only [assign, lookup]
  induction entries with
  | nil => simp [assignIn, lookupIn, eq_comm]
  | cons entry entries ih =>
    obtain ⟨other, old⟩ := entry
    by_cases h : other = name
    · by_cases hk : key = name <;> simp_all [assignIn, lookupIn, eq_comm]
    · by_cases hk : other = key <;> simp_all [assignIn, lookupIn]

/-- The names bound after an assignment, in order. -/
theorem keys_assign (b : Bindings) (name : String) (value : Float) :
    (b.assign name value).entries.map Prod.fst =
      if name ∈ b.entries.map Prod.fst then b.entries.map Prod.fst
      else b.entries.map Prod.fst ++ [name] := by
  obtain ⟨entries⟩ := b
  simp only [assign]
  induction entries with
  | nil => simp [assignIn]
  | cons entry entries ih =>
    obtain ⟨other, old⟩ := entry
    by_cases h : other = name
    · simp [assignIn, h]
    · have h' : ¬ name = other := fun e => h e.symm
      by_cases hm : name ∈ entries.map Prod.fst <;> simp_all [assignIn]

end Bindings

/-! ## Scopes -/

/-- What the names in a text stand for. -/
structure Scope where
  constants : Bindings
  vars : Bindings
  deriving DecidableEq

namespace Scope

/-- A scope without variables. -/
def ofConstants (constants : Bindings) : Scope := ⟨constants, .empty⟩

/-- The value of a constant. -/
def constant (s : Scope) (name : String) : Option Float := s.constants.lookup name

/-- The value of a variable. -/
def lookup (s : Scope) (name : String) : Except Fault Float :=
  match s.vars.lookup name with
  | none => .error (.unknownName name)
  | some value => .ok value

/-- Gives a variable a value. -/
def assign (s : Scope) (name : String) (value : Float) : Scope :=
  { s with vars := s.vars.assign name value }

/-- Constants are not to be set. -/
def setConstant (_ : Scope) (_ : String) (_ : Float) : Except Fault Scope :=
  .error .constantsFixed

end Scope

end Reckoner
