/-
  An evaluation and a session begin alike.

  A `Chronicle` is a session with the variables of each moment: every entry is an
  event and what the variables were when it was shown. Without them it is the
  session (`conversation_chronicle`).

  An evaluation stops at its first fault. Up to there a session shows the results
  one by one, each behind a prompt, and then a prompt more (`chronicle_of_evaluate`).
  What follows depends on the fault alone and on the state it left (`aftermath`).

  Proved: `converse_of_evaluate`, in each of the three ways an evaluation can end.
-/
import Reckoner.Proofs.Composition
import Reckoner.Proofs.Faults

namespace Reckoner

open State

/-- What a session showed, with the variables of each moment, and how it ended. -/
structure Chronicle (σ : Type) where
  entries : List (Event × Bindings)
  fatal : Option Fault
  state : State σ
  deriving DecidableEq

namespace Chronicle

variable {σ : Type}

/-- A chronicle that goes on behind some entries. -/
def after (c : Chronicle σ) (entries : List (Event × Bindings)) : Chronicle σ :=
  { c with entries := entries ++ c.entries }

/-- The session alone. -/
def conversation (c : Chronicle σ) : Conversation σ := ⟨c.entries.map Prod.fst, c.fatal, c.state⟩

theorem conversation_after (c : Chronicle σ) (entries : List (Event × Bindings)) :
    (c.after entries).conversation = c.conversation.after (entries.map Prod.fst) := by
  rw [conversation, after, List.map_append]
  rfl

theorem after_after (c : Chronicle σ) (xs ys : List (Event × Bindings)) :
    (c.after xs).after ys = c.after (ys ++ xs) := by
  rw [after, after, after, List.append_assoc]

end Chronicle

section Sessions

variable {σ : Type} [Supply σ]

/-- A session, told with the variables of each moment. -/
def State.chronicle (limit : Limit) (s : State σ) : Chronicle σ :=
  match _hstatement : s.statement limit with
  | .ok none s₁ => ⟨[(.prompt, s.vars)], none, s₁⟩
  | .ok (some value) s₁ =>
    (chronicle limit s₁).after [(.prompt, s.vars), (.result value, s₁.vars)]
  | .fault f s₁ =>
    if f.recoverable then
      match _hgiveUp : s₁.giveUp .print with
      | (skipped, s₂) =>
        (chronicle limit s₂).after ((.prompt, s.vars) :: (.complaint f, s₁.vars) ::
          skipped.toList.map fun n => (.skipped n, s₁.vars))
    else ⟨[(.prompt, s.vars)], some f, s₁⟩
termination_by s.size
decreasing_by
  · exact size_statement _hstatement
  · simpa [_hgiveUp] using size_giveUp_of_statement .print _hstatement

/-- The entries of a statement that is given up, behind its prompt. -/
def State.complaint (f : Fault) (s : State σ) : List (Event × Bindings) :=
  (.complaint f, s.vars) :: (s.giveUp .print).1.toList.map fun n => (.skipped n, s.vars)

/-- What follows the end of an evaluation in a session. -/
def Evaluation.aftermath (limit : Limit) (e : Evaluation σ) : Chronicle σ :=
  match e.fault with
  | none => ⟨[], none, e.state⟩
  | some f =>
    if f.recoverable then ((e.state.giveUp .print).2.chronicle limit).after (e.state.complaint f)
    else ⟨[], some f, e.state⟩

theorem State.chronicle_eq (limit : Limit) (s : State σ) :
    s.chronicle limit = match s.statement limit with
      | .ok none s₁ => ⟨[(.prompt, s.vars)], none, s₁⟩
      | .ok (some value) s₁ =>
        (s₁.chronicle limit).after [(.prompt, s.vars), (.result value, s₁.vars)]
      | .fault f s₁ => (Evaluation.aftermath limit ⟨[], some f, s₁⟩).after [(.prompt, s.vars)] := by
  rw [chronicle]
  split
  · next h => rw [h]
  · next h => rw [h]
  · next f s₁ h =>
    rw [h]
    dsimp only [Evaluation.aftermath]
    split
    · rfl
    · rfl

/-- Without the variables the chronicle is the session. -/
theorem State.conversation_chronicle (limit : Limit) (s : State σ) :
    (s.chronicle limit).conversation = s.converse limit := by
  induction s using State.sessionInduction (σ := σ) limit with
  | turn s answered recovered =>
    rw [chronicle_eq, converse_eq]
    cases hstatement : s.statement limit with
    | ok v s₁ =>
      cases v with
      | none => rfl
      | some value =>
        dsimp only
        rw [Chronicle.conversation_after, answered value s₁ hstatement]
        rfl
    | fault f s₁ =>
      dsimp only [Evaluation.aftermath]
      by_cases recoverable : f.recoverable
      · rw [if_pos recoverable, if_pos recoverable, Chronicle.after_after,
          Chronicle.conversation_after, recovered f s₁ hstatement]
        simp [complaint, Event.recovery, Function.comp_def]
      · rw [if_neg recoverable, if_neg recoverable]
        rfl

/-! ## Up to the first fault -/

/-- What a session shows of some results. -/
def Event.answers (results : List Float) : List Event := results.flatMap fun v => [.prompt, .result v]

/-- A session shows the results of an evaluation and a prompt more. What follows
    is the aftermath. -/
theorem State.chronicle_of_evaluate (limit : Limit) (s : State σ) :
    ∃ before, before.map Prod.fst = Event.answers (s.evaluate limit).results ++ [.prompt] ∧
      s.chronicle limit = ((s.evaluate limit).aftermath limit).after before := by
  induction s using State.sessionInduction (σ := σ) limit with
  | turn s answered =>
    rw [chronicle_eq, evaluate_eq]
    cases hstatement : s.statement limit with
    | fault f s₁ => exact ⟨[(.prompt, s.vars)], rfl, rfl⟩
    | ok v s₁ =>
      cases v with
      | none => exact ⟨[(.prompt, s.vars)], rfl, rfl⟩
      | some value =>
        obtain ⟨before, hbefore, hchronicle⟩ := answered value s₁ hstatement
        refine ⟨(.prompt, s.vars) :: (.result value, s₁.vars) :: before, ?_, ?_⟩
        · rw [List.map_cons, List.map_cons, hbefore]
          rfl
        · dsimp only
          rw [hchronicle, Chronicle.after_after]
          rfl

end Sessions

namespace Transcript

theorem output_answers (results : List Float) :
    output (Event.answers results) =
      String.join (results.map fun v => "> = " ++ amount v ++ "\n") := by
  induction results with
  | nil => rfl
  | cons v vs ih =>
    have line : output [.prompt, .result v] = "> = " ++ amount v ++ "\n" := by
      have prompt : "> " ++ "= " = "> = " := by decide
      show "" ++ "> " ++ ("= " ++ amount v ++ "\n") = _
      rw [String.empty_append, ← String.append_assoc, ← String.append_assoc, prompt]
    show output ([.prompt, .result v] ++ Event.answers vs) = _
    rw [output_append, ih, line, List.map_cons, String.join_cons]

theorem errors_answers (results : List Float) : errors (Event.answers results) = "" := by
  induction results with
  | nil => rfl
  | cons v vs ih =>
    show errors ([.prompt, .result v] ++ Event.answers vs) = _
    rw [errors_append, ih]
    rfl

end Transcript

/-- **A session begins as the evaluation of its text.** If an evaluation comes to the
    end, the session shows its results and a prompt, and no error. If it ends with a
    fault that a session recovers from, the session shows as much, and the next thing
    it shows is the message, one line and the first of the errors, when the variables
    are those the evaluation left. If it ends with any other fault, so does the
    session. -/
theorem converse_of_evaluate (limit : Limit) (scope : Scope) (code : String) :
    let e := (scope.start code).evaluate limit
    let c := (scope.start code).converse limit
    let chronicle := (scope.start code).chronicle limit
    let answered := String.join (e.results.map fun v => "> = " ++ amount v ++ "\n") ++ "> "
    chronicle.conversation = c ∧
      (e.fault = none → Transcript.output c.events = answered ∧ Transcript.errors c.events = "" ∧
        c.fatal = none ∧ c.state.vars = e.state.vars) ∧
      (∀ f, e.fault = some f → f.recoverable = true → ∃ before later,
        chronicle.entries = before ++ (.complaint f, e.state.vars) :: later ∧
          Transcript.output (before.map Prod.fst) = answered ∧
          Transcript.errors (before.map Prod.fst) = "" ∧
          Transcript.errors c.events =
            f.message ++ "\n" ++ Transcript.errors (later.map Prod.fst) ∧ '\n' ∉ f.message.toList) ∧
      ∀ f, e.fault = some f → f.recoverable = false → Transcript.output c.events = answered ∧
        Transcript.errors c.events = "" ∧ c.fatal = some f ∧ c.state.vars = e.state.vars := by
  intro e c chronicle answered
  have same : chronicle.conversation = c := conversation_chronicle limit _
  obtain ⟨before, hbefore, hchronicle⟩ := chronicle_of_evaluate limit (scope.start code)
  have hchronicle : chronicle = (e.aftermath limit).after before := hchronicle
  have output : Transcript.output (before.map Prod.fst) = answered := by
    rw [hbefore, output_append, Transcript.output_answers]
    rfl
  have errors : Transcript.errors (before.map Prod.fst) = "" := by
    rw [hbefore, errors_append, Transcript.errors_answers]
    rfl
  have whole : c = (e.aftermath limit).conversation.after (before.map Prod.fst) := by
    rw [← same, hchronicle, Chronicle.conversation_after]
  refine ⟨same, fun ends => ?_, fun f ends recoverable => ?_, fun f ends fatal => ?_⟩
  · have last : e.aftermath limit = ⟨[], none, e.state⟩ := by rw [Evaluation.aftermath, ends]
    have events : c.events = before.map Prod.fst := by
      rw [whole, last]
      exact List.append_nil _
    rw [events, whole, last]
    exact ⟨output, errors, rfl, rfl⟩
  · let rest := (e.state.giveUp .print).2.chronicle limit
    let later := (e.state.complaint f).tail ++ rest.entries
    have last : e.aftermath limit = rest.after (e.state.complaint f) := by
      rw [Evaluation.aftermath, ends]
      exact if_pos recoverable
    have entries : chronicle.entries = before ++ (.complaint f, e.state.vars) :: later := by
      rw [hchronicle, last]
      rfl
    have events : c.events = before.map Prod.fst ++ ([.complaint f] ++ later.map Prod.fst) := by
      rw [← same]
      show chronicle.entries.map Prod.fst = _
      rw [entries, List.map_append]
      rfl
    have textual : f.Textual lettered := by
      have holds : lettered.Holds (scope.start code) := .start scope trivial
      refine (textual_converse holds limit).complaint f ?_
      show .complaint f ∈ c.events
      rw [events]
      exact List.mem_append_right _ List.mem_cons_self
    refine ⟨before, later, entries, output, errors, ?_, textual.not_mem_message⟩
    rw [events, errors_append, errors_append, errors, String.empty_append]
    show "" ++ (f.message ++ "\n") ++ _ = _
    rw [String.empty_append]
  · have last : e.aftermath limit = ⟨[], some f, e.state⟩ := by
      rw [Evaluation.aftermath, ends]
      exact if_neg (ne_true_of_eq_false fatal)
    have events : c.events = before.map Prod.fst := by
      rw [whole, last]
      exact List.append_nil _
    rw [events, whole, last]
    exact ⟨output, errors, rfl, rfl⟩

/-- The variable that the faulty statement sets is there when the message comes, and
    a missing remainder ends the session as it ends the evaluation. -/
theorem converse_of_two_results :
    let start := (Scope.ofConstants .builtin).start
    let two := "> = 2\n> = 3\n> "
    (∃ before later, ((start "x = 2; x + 1; (y = 4) + z; 9").chronicle nestingLimit).entries =
        before ++ (.complaint (.unknownName "z"), .ofList [("x", 2), ("y", 4)]) :: later ∧
        Transcript.output (before.map Prod.fst) = two) ∧
      let c := (start "x = 2; x + 1; 1e999 % x; 9").converse nestingLimit
      Transcript.output c.events = two ∧ Transcript.errors c.events = "" ∧
        c.fatal = some .noRemainder ∧ c.state.vars = .ofList [("x", 2)] := by
  intro start two
  have shown : String.join ([2, 3].map fun v => "> = " ++ amount v ++ "\n") ++ "> " = two := by
    decide +kernel
  constructor
  · have results : ((start "x = 2; x + 1; (y = 4) + z; 9").evaluate nestingLimit).results = [2, 3] := by
      decide +kernel
    have vars : ((start "x = 2; x + 1; (y = 4) + z; 9").evaluate nestingLimit).state.vars =
        .ofList [("x", 2), ("y", 4)] := by decide +kernel
    obtain ⟨-, -, recovers, -⟩ :=
      converse_of_evaluate nestingLimit (.ofConstants .builtin) "x = 2; x + 1; (y = 4) + z; 9"
    obtain ⟨before, later, entries, output, -⟩ :=
      recovers (.unknownName "z") (by decide +kernel) rfl
    refine ⟨before, later, ?_, ?_⟩
    · rw [← vars]
      exact entries
    · rw [output, results, shown]
  · have results : ((start "x = 2; x + 1; 1e999 % x; 9").evaluate nestingLimit).results = [2, 3] := by
      decide +kernel
    have vars : ((start "x = 2; x + 1; 1e999 % x; 9").evaluate nestingLimit).state.vars =
        .ofList [("x", 2)] := by decide +kernel
    obtain ⟨-, -, -, ends⟩ :=
      converse_of_evaluate nestingLimit (.ofConstants .builtin) "x = 2; x + 1; 1e999 % x; 9"
    obtain ⟨output, errors, fatal, left⟩ := ends .noRemainder (by decide +kernel) rfl
    exact ⟨output.trans (by rw [results, shown]), errors, fatal, left.trans vars⟩

end Reckoner
