/-
  Each loop is one turn and the loop again.

  The loops of the rules, of statements, of sessions and over the tokens of a text
  are defined by recursion on sizes. Here each is given as an equation between
  outcomes, with `andThen` for what comes next, and without the bounds that make it
  end.

  Proofs about them are by induction along the loop: over the tokens of a run
  (`tokenInduction`), the operands of a chain (`chainInduction`) or the statements of
  a session (`sessionInduction`). What decreases is the size, and it is named here
  only.
-/
import Reckoner.Conversation
import Reckoner.Proofs.Intake

namespace Reckoner

open State

namespace Outcome

variable {σ α β : Type}

theorem andThen_of_eq_ok {o : Outcome σ α} {a : α} {s : σ} (h : o = .ok a s)
    (k : α → σ → Outcome σ β) : o.andThen k = k a s := by
  subst h
  rfl

theorem andThen_of_eq_fault {o : Outcome σ α} {f : Fault} {s : σ} (h : o = .fault f s)
    (k : α → σ → Outcome σ β) : o.andThen k = .fault f s := by
  subst h
  rfl

end Outcome

variable {σ : Type} [Supply σ]

theorem Supply.tokens_eq (s : σ) :
    tokens s = match next s with
      | .fault f _ => ([], some f)
      | .ok t s' => if t.kind = .quit then ([], none) else (t :: (tokens s').1, (tokens s').2) := by
  rw [tokens]
  split
  · next h => rw [h]
  · next h =>
    rw [h]
    dsimp only
    split <;> rfl

/-! ## Inductions along a loop -/

/-- What is so of a state if it is so behind its next token, unless that is `quit`. -/
theorem State.tokenInduction {motive : State σ → Prop}
    (turn : ∀ s, (∀ t s₁, s.token = .ok t s₁ → t.kind ≠ .quit → motive s₁) → motive s)
    (s : State σ) : motive s := by
  induction hsize : s.size using Nat.strongRecOn generalizing s with
  | ind n ih =>
    refine turn s fun t s₁ htoken notQuit => ?_
    have := size_token htoken
    have := Token.weight_eq_one notQuit
    exact ih s₁.size (by omega) s₁ rfl

/-- What is so of a state if it is so behind a token and the operand that follows. -/
theorem Rule.chainInduction (operand : Rule σ) {motive : State σ → Prop}
    (turn : ∀ s, (∀ t s₁ v s₂, s.token = .ok t s₁ → operand.run s₁ = .ok v s₂ → motive s₂) → motive s)
    (s : State σ) : motive s := by
  induction hsize : s.size using Nat.strongRecOn generalizing s with
  | ind n ih =>
    refine turn s fun t s₁ v s₂ htoken hrun => ?_
    have := size_token htoken
    have := operand.size_lt hrun
    exact ih s₂.size (by omega) s₂ rfl

/-- What is so of a state if it is so behind a statement with a value, and behind one
    that failed when that is given up. -/
theorem State.sessionInduction (limit : Limit) {motive : State σ → Prop}
    (turn : ∀ s, (∀ v s₁, s.statement limit = .ok (some v) s₁ → motive s₁) →
      (∀ f s₁, s.statement limit = .fault f s₁ → motive (s₁.giveUp .print).2) → motive s)
    (s : State σ) : motive s := by
  induction hsize : s.size using Nat.strongRecOn generalizing s with
  | ind n ih =>
    refine turn s (fun v s₁ ok => ?_) (fun f s₁ failed => ?_)
    · exact ih s₁.size (hsize ▸ size_statement ok) s₁ rfl
    · exact ih _ (hsize ▸ size_giveUp_of_statement .print failed) _ rfl

/-! ## Rules -/

namespace Rule

theorem chainFrom_eq (p : Nat) (operand : Rule σ) (left : Float) (s : State σ) :
    chainFrom p operand left s = s.token.andThen fun t s =>
      match operatorAt p t.kind with
      | none => s.answer t left
      | some op =>
        (operand.run s).andThen fun right s =>
          match op.apply left right with
          | .error f => .fault f s
          | .ok value => chainFrom p operand value s := by
  symm
  rw [chainFrom]
  split
  · next htoken => exact Outcome.andThen_of_eq_fault htoken _
  · next t s₁ htoken =>
    refine (Outcome.andThen_of_eq_ok htoken _).trans ?_
    cases operatorAt p t.kind with
    | none => rfl
    | some op =>
      dsimp only
      split
      · next hrun => exact Outcome.andThen_of_eq_fault hrun _
      · next hrun => exact Outcome.andThen_of_eq_ok hrun _

/-- The supply has a fault in place of the first token, or of the one behind a name. -/
def Meets (s : State σ) (f : Fault) (s' : State σ) : Prop :=
  s.token = .fault f s' ∨ ∃ t s₁, s.token = .ok t s₁ ∧ t.kind = .name ∧ s₁.token = .fault f s'

/-- To lose a token is a fault that the supply has in place of one, or the limit. -/
theorem lose_fault (s : State σ) : ∃ f s', lose s = .fault f s' ∧ s'.vars = s.vars ∧
    (f = .tooDeep ∨ s.token = .fault f s') := by
  cases htoken : s.token with
  | fault f s' =>
    have hvars : s'.vars = s.vars := by
      rw [(token_eq_fault htoken).2.2]
      rfl
    exact ⟨f, s', Outcome.andThen_of_eq_fault htoken _, hvars, .inr rfl⟩
  | ok t s' =>
    exact ⟨.tooDeep, s', Outcome.andThen_of_eq_ok htoken _, vars_of_token htoken, .inl rfl⟩

/-- The rule that is one too many ends in a fault that it meets, or the limit, and sets nothing. -/
theorem brink_fault (frail : Bool) (s : State σ) :
    ∃ f s', (brink frail).run s = .fault f s' ∧ s'.vars = s.vars ∧
      (f = .tooDeep ∨ Meets s f s') := by
  obtain hrun | ⟨-, hrun | ⟨⟨t, hslot, isName⟩, hrun⟩⟩ := run_brink frail s
  · exact ⟨_, _, hrun, rfl, .inl rfl⟩
  · obtain ⟨f, s', hlose, hvars, hf⟩ := lose_fault s
    exact ⟨f, s', hrun.trans hlose, hvars, hf.imp_right .inl⟩
  · have htoken := token_of_ahead (ahead_of_slot hslot)
    obtain ⟨f, s', hlose, hvars, hf⟩ := lose_fault (ofSupply s.supply s.vars)
    refine ⟨f, s', ?_, hvars, hf.imp_right fun hf => .inr ⟨t, _, htoken, isName, hf⟩⟩
    rw [hrun, htoken]
    exact hlose

theorem signs_eq (turned : Bool) (s : State σ) :
    signs turned s = s.token.andThen fun t s =>
      if t.kind = .operator .subtract then signs (!turned) s else s.answer t turned := by
  symm
  rw [signs]
  split
  · next htoken => exact Outcome.andThen_of_eq_fault htoken _
  · next htoken =>
    refine (Outcome.andThen_of_eq_ok htoken _).trans ?_
    split <;> rfl

end Rule

namespace State

theorem firstToken_eq (s : State σ) :
    s.firstToken = s.token.andThen fun t s => if t.kind = .print then s.firstToken else .ok t s := by
  symm
  rw [firstToken]
  split
  · next htoken => exact Outcome.andThen_of_eq_fault htoken _
  · next htoken =>
    refine (Outcome.andThen_of_eq_ok htoken _).trans ?_
    split <;> rfl

/-! ## What a statement begins with -/

section Ahead

variable {s s' : State σ} {t : Token} {supply : σ} {limit : Limit}

theorem firstToken_print (ha : s.ahead = .ok t supply) (isPrint : t.kind = .print) :
    s.firstToken = (ofSupply supply s.vars).firstToken := by
  rw [firstToken_eq, token_of_ahead ha, Outcome.andThen_ok, if_pos isPrint]

theorem firstToken_of_ahead (ha : s.ahead = .ok t supply) (notPrint : t.kind ≠ .print) :
    s.firstToken = .ok t (ofSupply supply s.vars) := by
  rw [firstToken_eq, token_of_ahead ha, Outcome.andThen_ok, if_neg notPrint]

theorem firstToken_congr (ha : s.ahead = s'.ahead) (hv : s.vars = s'.vars) :
    s.firstToken = s'.firstToken := by
  have htoken : s.token = s'.token := by rw [token_eq, token_eq, ha, hv]
  rw [firstToken_eq s, firstToken_eq s', htoken]

theorem statement_quit (ha : s.ahead = .ok t supply) (isQuit : t.kind = .quit) :
    s.statement limit = .ok none (ofSupply supply s.vars) := by
  have notPrint : t.kind ≠ .print := by rw [isQuit]; exact Kind.noConfusion
  rw [statement, firstToken_of_ahead ha notPrint, Outcome.andThen_ok, if_pos isQuit]

end Ahead

/-! ## Runs -/

theorem evaluate_eq (limit : Limit) (s : State σ) :
    s.evaluate limit = match s.statement limit with
      | .fault f s => ⟨[], some f, s⟩
      | .ok none s => ⟨[], none, s⟩
      | .ok (some value) s =>
        { s.evaluate limit with results := value :: (s.evaluate limit).results } := by
  rw [evaluate]
  split <;> next h => rw [h]

end State

/-- A session that goes on behind some events. -/
def Conversation.after {σ : Type} (c : Conversation σ) (events : List Event) : Conversation σ :=
  { c with events := events ++ c.events }

theorem Conversation.after_nil {σ : Type} (c : Conversation σ) : c.after [] = c := rfl

theorem Conversation.after_after {σ : Type} (c : Conversation σ) (xs ys : List Event) :
    (c.after xs).after ys = c.after (ys ++ xs) := by
  rw [after, after, after, List.append_assoc]

/-- What a session shows when it gives up a statement. -/
def Event.recovery (f : Fault) (skipped : Option Nat) : List Event :=
  .prompt :: .complaint f :: skipped.toList.map .skipped

theorem State.converse_eq (limit : Limit) (s : State σ) :
    s.converse limit = match s.statement limit with
      | .ok none s => ⟨[.prompt], none, s⟩
      | .ok (some value) s => (s.converse limit).after [.prompt, .result value]
      | .fault f s =>
        if f.recoverable then
          ((s.giveUp .print).2.converse limit).after (Event.recovery f (s.giveUp .print).1)
        else ⟨[.prompt], some f, s⟩ := by
  rw [converse]
  split
  · next h => rw [h]
  · next h =>
    rw [h]
    rfl
  · next h =>
    rw [h]
    rfl

end Reckoner
